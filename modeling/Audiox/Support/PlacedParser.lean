import Audiox.Support.CheckedRead
import Mathlib

/-!
# Parsers of a buffer at a position

A parser sees the whole buffer and moves a position.  `Places` says that it
reads the bytes at its position, whatever is in front of them and behind them.
-/

namespace PlacedParser

open ByteCodec

abbrev Parser : Type → Type :=
  ReaderT Bytes (StateT Nat Option)

def run {α : Type} (p : Parser α) (data : Bytes) (pos : Nat) :
    Option (α × Nat) :=
  p data pos

/-- The bytes at the position. -/
def take (n : Nat) : Parser Bytes :=
  fun data pos =>
    if pos + n ≤ data.length then some ((data.drop pos).take n, pos + n)
    else none

/-- The big-endian number in the bytes at the position. -/
def number (n : Nat) : Parser Nat :=
  beNat <$> take n

def check (c : Prop) [Decidable c] : Parser Unit :=
  fun _ pos => if c then some ((), pos) else none

/-- A parser that has to read so many bytes. -/
def sized {α : Type} (n : Nat) (p : Parser α) : Parser α :=
  fun data pos =>
    (run p data pos).bind fun result =>
      if result.2 = pos + n then some result else none

def many {α : Type} (p : Parser α) : Nat → Parser (List α)
  | 0 => pure []
  | count + 1 => do
      let a ← p
      let rest ← many p count
      pure (a :: rest)

/-- A parser that has to end where the buffer does. -/
def whole {α : Type} (p : Parser α) (data : Bytes) : Option α :=
  (run p data 0).bind fun result =>
    if result.2 = data.length then some result.1 else none

/-- The parser reads these bytes wherever they are. -/
def Places {α : Type} (p : Parser α) (bs : Bytes) (a : α) : Prop :=
  ∀ front rest : Bytes,
    run p (front ++ (bs ++ rest)) front.length =
      some (a, (front ++ bs).length)

variable {α β : Type} {p : Parser α} {bs bs' : Bytes} {a : α} {b : β}

theorem run_bind (p : Parser α) (f : α → Parser β) (data : Bytes)
    (pos : Nat) :
    run (p >>= f) data pos =
      (run p data pos).bind fun result => run (f result.1) data result.2 :=
  rfl

theorem run_pure (a : α) (data : Bytes) (pos : Nat) :
    run (pure a) data pos = some (a, pos) :=
  rfl

theorem places_pure (a : α) : Places (pure a) [] a := by
  intro front rest
  rw [List.append_nil]
  rfl

theorem Places.bind {f : α → Parser β} (hp : Places p bs a)
    (hf : Places (f a) bs' b) : Places (p >>= f) (bs ++ bs') b := by
  intro front rest
  have hfirst := hp front (bs' ++ rest)
  have hsecond := hf (front ++ bs) rest
  rw [List.append_assoc bs bs' rest, run_bind, hfirst, Option.bind_some]
  rw [List.append_assoc front bs] at hsecond
  rw [hsecond, List.append_assoc]

theorem Places.last {f : α → Parser β} (hp : Places p bs a)
    (hf : Places (f a) [] b) : Places (p >>= f) bs b := by
  have h := hp.bind hf
  rwa [List.append_nil] at h

theorem places_take {n : Nat} (h : bs.length = n) : Places (take n) bs bs := by
  intro front rest
  have hfits : front.length + n ≤ (front ++ (bs ++ rest)).length := by
    rw [List.length_append, List.length_append]
    omega
  show (if _ then _ else _) = _
  rw [if_pos hfits, List.drop_left' rfl, List.take_left' h, List.length_append,
    h]

theorem places_number {n v : Nat} (h : v < 256 ^ n) :
    Places (number n) (beBytes n v) v := by
  have hbytes := places_take (length_beBytes n v)
  intro front rest
  have hrun : run (number n) (front ++ (beBytes n v ++ rest)) front.length =
      (run (take n) (front ++ (beBytes n v ++ rest)) front.length).bind
        fun result => some (beNat result.1, result.2) :=
    rfl
  rw [hrun, hbytes front rest, Option.bind_some, beNat_beBytes_of_lt h]

theorem Places.check {c : Prop} [Decidable c] {f : Unit → Parser α} (h : c)
    (hf : Places (f ()) bs a) :
    Places (PlacedParser.check c >>= f) bs a := by
  have hc : Places (PlacedParser.check c) [] () := by
    intro front rest
    rw [List.append_nil]
    exact if_pos h
  exact hc.bind hf

theorem Places.sized {n : Nat} (hp : Places p bs a) (h : bs.length = n) :
    Places (PlacedParser.sized n p) bs a := by
  intro front rest
  show ((run p _ _).bind fun result => _) = _
  rw [hp front rest, Option.bind_some, if_pos]
  rw [List.length_append, h]

/-- Elements that are written one after the other. -/
theorem places_many {encode : α → Bytes} {l : List α}
    (hp : ∀ a ∈ l, Places p (encode a) a) :
    Places (many p l.length) (l.flatMap encode) l := by
  induction l with
  | nil => exact places_pure []
  | cons a l ih =>
      obtain ⟨ha, hl⟩ := List.forall_mem_cons.mp hp
      rw [List.flatMap_cons]
      exact ha.bind ((ih hl).last (places_pure _))

theorem Places.whole (hp : Places p bs a) :
    PlacedParser.whole p bs = some a := by
  have h := hp [] []
  rw [List.append_nil, List.nil_append, List.length_nil] at h
  unfold PlacedParser.whole
  rw [h, Option.bind_some, if_pos rfl]

/-! ## What is read -/

/-- Whatever the parser reads satisfies `P`. -/
def Ensures {α : Type} (p : Parser α) (P : α → Prop) : Prop :=
  ∀ data pos a next, run p data pos = some (a, next) → P a

section Ensures

variable {P : α → Prop} {Q : β → Prop}

theorem Ensures.bind {f : α → Parser β} (hp : Ensures p P)
    (hf : ∀ a, P a → Ensures (f a) Q) : Ensures (p >>= f) Q := by
  intro data pos b next hrun
  rw [run_bind] at hrun
  obtain ⟨result, hfirst, hsecond⟩ := Option.bind_eq_some_iff.mp hrun
  exact hf result.1 (hp data pos result.1 result.2 hfirst) data result.2 b next
    hsecond

theorem ensures_pure (h : P a) : Ensures (pure a) P := by
  intro data pos a' next hrun
  rw [run_pure, Option.some.injEq, Prod.mk.injEq] at hrun
  rwa [← hrun.1]

theorem ensures_any (p : Parser α) : Ensures p fun _ => True :=
  fun _ _ _ _ _ => trivial

theorem ensures_many (hp : Ensures p P) (count : Nat) :
    Ensures (many p count) fun l => ∀ a ∈ l, P a := by
  induction count with
  | zero => exact ensures_pure (by simp)
  | succ count ih =>
      refine hp.bind fun a ha => ih.bind fun l hl => ?_
      exact ensures_pure (List.forall_mem_cons.mpr ⟨ha, hl⟩)

theorem run_number_of_le {data : Bytes} {pos n : Nat}
    (h : pos + n ≤ data.length) :
    run (number n) data pos =
      some (beNat ((data.drop pos).take n), pos + n) := by
  have hrun : run (number n) data pos =
      (run (take n) data pos).bind fun r => some (beNat r.1, r.2) :=
    rfl
  have htake : run (take n) data pos =
      some ((data.drop pos).take n, pos + n) := if_pos h
  rw [hrun, htake, Option.bind_some]

theorem run_number_eq_none {data : Bytes} {pos n : Nat}
    (h : ¬pos + n ≤ data.length) : run (number n) data pos = none := by
  have hrun : run (number n) data pos =
      (run (take n) data pos).bind fun r => some (beNat r.1, r.2) :=
    rfl
  have htake : run (take n) data pos = none := if_neg h
  rw [hrun, htake, Option.bind_none]

theorem ensures_number (n : Nat) : Ensures (number n) fun v => v < 256 ^ n := by
  intro data pos v next hrun
  by_cases hfits : pos + n ≤ data.length
  · rw [run_number_of_le hfits, Option.some.injEq, Prod.mk.injEq] at hrun
    obtain ⟨rfl, -⟩ := hrun
    have hlt := beNat_lt ((data.drop pos).take n)
    have hlength : ((data.drop pos).take n).length = n := by
      rw [List.length_take, List.length_drop]
      omega
    rwa [hlength] at hlt
  · rw [run_number_eq_none hfits] at hrun
    cases hrun

theorem Ensures.whole (hp : Ensures p P) {data : Bytes}
    (h : PlacedParser.whole p data = some a) : P a := by
  obtain ⟨result, hrun, hend⟩ := Option.bind_eq_some_iff.mp h
  split_ifs at hend with hlength
  rw [Option.some.injEq] at hend
  rw [← hend]
  exact hp data 0 result.1 result.2 hrun

end Ensures

end PlacedParser
