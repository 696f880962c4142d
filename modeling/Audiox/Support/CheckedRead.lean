import Audiox.Support.ByteCodec
import Mathlib

/-!
# Reading a buffer with checks

A reader of a buffer refuses it with an error of its own, or reads past the
end.  The rules take sequences of reads and checks apart, and show that a
reader stays inside the buffer.
-/

namespace CheckedRead

open ByteCodec

variable {ε ε' α β σ : Type}

inductive Failure (ε : Type) where
  | refused (error : ε)
  | pastEnd
deriving DecidableEq

abbrev Read (ε α : Type) : Type :=
  Except (Failure ε) α

/-- The bytes at a position. -/
def slice (data : Bytes) (pos n : Nat) : Read ε Bytes :=
  if pos + n ≤ data.length then .ok ((data.drop pos).take n)
  else .error .pastEnd

/-- The little-endian integer at a position. -/
def readLe (data : Bytes) (pos n : Nat) : Read ε Nat :=
  (slice data pos n).map leNat

def refuseIf (c : Prop) [Decidable c] (error : ε) : Read ε Unit :=
  if c then .error (.refused error) else .ok ()

/-- A computation that reads no buffer. -/
def refusing (r : Except ε α) : Read ε α :=
  r.mapError .refused

/-! ## What succeeds -/

theorem bind_eq_ok {r : Read ε α} {f : α → Read ε β} {b : β} :
    r >>= f = .ok b ↔ ∃ a, r = .ok a ∧ f a = .ok b := by
  cases r with
  | error e => simp [Bind.bind, Except.bind]
  | ok a => simp [Bind.bind, Except.bind]

theorem ok_bind (a : α) (f : α → Read ε β) : (.ok a : Read ε α) >>= f = f a :=
  rfl

theorem pure_eq_ok {a b : α} : (pure a : Read ε α) = .ok b ↔ a = b := by
  simp [pure, Except.pure]

theorem refuseIf_eq_ok {c : Prop} [Decidable c] {error : ε} {u : Unit} :
    refuseIf c error = .ok u ↔ ¬c := by
  unfold refuseIf
  split
  next h => simp [h]
  next h => simp [h]

theorem slice_eq_ok {data b : Bytes} {pos n : Nat} :
    (slice data pos n : Read ε Bytes) = .ok b ↔
      pos + n ≤ data.length ∧ (data.drop pos).take n = b := by
  unfold slice
  split
  next h => simp [h]
  next h => simp [h]

theorem readLe_eq_ok {data : Bytes} {pos n v : Nat} :
    (readLe data pos n : Read ε Nat) = .ok v ↔
      pos + n ≤ data.length ∧ leNat ((data.drop pos).take n) = v := by
  unfold readLe slice
  split
  next h => simp [h, Except.map]
  next h => simp [h, Except.map]

theorem refusing_eq_ok {r : Except ε α} {a : α} :
    refusing r = .ok a ↔ r = .ok a := by
  cases r with
  | error e => simp [refusing, Except.mapError]
  | ok b => simp [refusing, Except.mapError]

/-! ## What was read -/

theorem take_of_slice {data b : Bytes} {pos n : Nat}
    (h : (slice data pos n : Read ε Bytes) = .ok b) :
    pos + n ≤ data.length ∧ b.length = n ∧
      data.take (pos + n) = data.take pos ++ b := by
  obtain ⟨hfits, hb⟩ := slice_eq_ok.mp h
  refine ⟨hfits, ?_, ?_⟩
  · rw [← hb, List.length_take, List.length_drop]
    omega
  · rw [List.take_add, hb]

theorem take_of_readLe {data : Bytes} {pos n v : Nat}
    (h : (readLe data pos n : Read ε Nat) = .ok v) :
    pos + n ≤ data.length ∧ v < 256 ^ n ∧
      data.take (pos + n) = data.take pos ++ leBytes n v := by
  obtain ⟨hfits, hv⟩ := readLe_eq_ok.mp h
  have hlen : ((data.drop pos).take n).length = n := by
    rw [List.length_take, List.length_drop]
    omega
  refine ⟨hfits, ?_, ?_⟩
  · have hlt := leNat_lt ((data.drop pos).take n)
    rw [hlen, hv] at hlt
    exact hlt
  · have hbytes := leBytes_leNat ((data.drop pos).take n)
    rw [hlen, hv] at hbytes
    rw [List.take_add, hbytes]

/-! ## Readers that stay inside -/

/-- The reader does not read past the end of its buffer. -/
def Inside (r : Read ε α) : Prop :=
  r ≠ .error .pastEnd

theorem inside_pure (a : α) : Inside (pure a : Read ε α) := by
  rintro ⟨⟩

theorem inside_refused (error : ε) :
    Inside (.error (.refused error) : Read ε α) := by
  rintro ⟨⟩

theorem inside_refuseIf {c : Prop} [Decidable c] (error : ε) :
    Inside (refuseIf c error) := by
  unfold refuseIf
  split
  · exact inside_refused error
  · exact inside_pure ()

theorem inside_refusing (r : Except ε α) : Inside (refusing r) := by
  cases r with
  | error e => exact inside_refused e
  | ok a => exact inside_pure a

theorem inside_slice {data : Bytes} {pos n : Nat} (h : pos + n ≤ data.length) :
    Inside (slice data pos n : Read ε Bytes) := by
  rw [slice, if_pos h]
  exact inside_pure _

theorem inside_readLe {data : Bytes} {pos n : Nat}
    (h : pos + n ≤ data.length) :
    Inside (readLe data pos n : Read ε Nat) := by
  rw [readLe, slice, if_pos h]
  exact inside_pure _

/-- The second reader may rely on what the first one has found. -/
theorem Inside.bind {r : Read ε α} {f : α → Read ε β} (hr : Inside r)
    (hf : ∀ a, r = .ok a → Inside (f a)) : Inside (r >>= f) := by
  cases r with
  | error e =>
      intro h
      apply hr
      simpa [Bind.bind, Except.bind] using h
  | ok a => exact hf a rfl

theorem Inside.check {c : Prop} [Decidable c] {error : ε}
    {f : Unit → Read ε β} (hf : ¬c → Inside (f ())) :
    Inside (refuseIf c error >>= f) := by
  apply (inside_refuseIf error).bind
  intro u hu
  exact hf (refuseIf_eq_ok.mp hu)

theorem Inside.foldlM {f : σ → α → Read ε σ} {l : List α}
    (hf : ∀ a ∈ l, ∀ s, Inside (f s a)) (s : σ) : Inside (l.foldlM f s) := by
  induction l generalizing s with
  | nil => exact inside_pure s
  | cons a l ih =>
      rw [List.foldlM_cons]
      apply (hf a (by simp) s).bind
      intro s' _
      exact ih (fun b hb => hf b (List.mem_cons_of_mem _ hb)) s'

/-! ## Readers with a result -/

/-- The reader stays inside its buffer, and what it returns satisfies `P`. -/
structure Yields (r : Read ε α) (P : α → Prop) : Prop where
  inside : Inside r
  result : ∀ a, r = .ok a → P a

section Yields

variable {r : Read ε α} {P : α → Prop} {Q : β → Prop}

theorem yields_pure {a : α} (h : P a) : Yields (pure a : Read ε α) P := by
  constructor
  · exact inside_pure a
  · intro a' ha
    rwa [← pure_eq_ok.mp ha]

theorem yields_refused (error : ε) :
    Yields (.error (.refused error) : Read ε α) P := by
  constructor
  · exact inside_refused error
  · rintro a ⟨⟩

theorem Yields.mono {P' : α → Prop} (h : Yields r P) (hP : ∀ a, P a → P' a) :
    Yields r P' :=
  ⟨h.inside, fun a ha => hP a (h.result a ha)⟩

theorem Yields.bind {f : α → Read ε β} (hr : Yields r P)
    (hf : ∀ a, P a → Yields (f a) Q) : Yields (r >>= f) Q := by
  constructor
  · exact hr.inside.bind fun a ha => (hf a (hr.result a ha)).inside
  · intro b hb
    obtain ⟨a, ha, hfa⟩ := bind_eq_ok.mp hb
    exact (hf a (hr.result a ha)).result b hfa

theorem Yields.check {c : Prop} [Decidable c] {error : ε}
    {f : Unit → Read ε β} (hf : ¬c → Yields (f ()) Q) :
    Yields (refuseIf c error >>= f) Q := by
  constructor
  · exact Inside.check fun hc => (hf hc).inside
  · intro b hb
    obtain ⟨u, hu, hfu⟩ := bind_eq_ok.mp hb
    exact (hf (refuseIf_eq_ok.mp hu)).result b hfu

theorem yields_slice {data : Bytes} {pos n : Nat} (h : pos + n ≤ data.length) :
    Yields (slice data pos n : Read ε Bytes) fun b => b.length = n :=
  ⟨inside_slice h, fun _ hb => (take_of_slice hb).2.1⟩

theorem Yields.foldlM {I : σ → Prop} {f : σ → α → Read ε σ} {l : List α}
    (hf : ∀ a ∈ l, ∀ s, I s → Yields (f s a) I) {s : σ} (hs : I s) :
    Yields (l.foldlM f s) I := by
  induction l generalizing s with
  | nil => exact yields_pure hs
  | cons a l ih =>
      rw [List.foldlM_cons]
      apply (hf a (by simp) s hs).bind
      intro s' hs'
      exact ih (fun b hb => hf b (List.mem_cons_of_mem _ hb)) hs'

theorem Yields.mapM {f : α → Read ε β} {l : List α}
    (hf : ∀ a ∈ l, Yields (f a) Q) :
    Yields (l.mapM f) fun bs => bs.length = l.length ∧ ∀ b ∈ bs, Q b := by
  induction l with
  | nil => exact yields_pure ⟨rfl, by simp⟩
  | cons a l ih =>
      rw [List.mapM_cons]
      apply (hf a (by simp)).bind
      intro b hb
      apply (ih fun a' ha' => hf a' (List.mem_cons_of_mem _ ha')).bind
      rintro bs ⟨hlength, hbs⟩
      refine yields_pure ⟨by rw [List.length_cons, hlength, List.length_cons], ?_⟩
      intro b' hb'
      rcases List.mem_cons.mp hb' with rfl | hb'
      · exact hb
      · exact hbs b' hb'

end Yields

/-! ## Sizes -/

/-- The difference of two sizes of 64 bits. -/
def sizeSub (a b : Nat) : Nat :=
  (a + 2 ^ 64 - b) % 2 ^ 64

theorem sizeSub_eq {a b : Nat} (ha : a < 2 ^ 64) (h : b ≤ a) :
    sizeSub a b = a - b := by
  unfold sizeSub
  omega

/-! ## Checked sizes and walks -/

/-- The big-endian integer at a position. -/
def readBe (data : Bytes) (pos n : Nat) : Read ε Nat :=
  (slice data pos n).map beNat

/-- The difference of two sizes.  One below zero would wrap and reach past the
end. -/
def sub (a b : Nat) : Read ε Nat :=
  if b ≤ a then .ok (a - b) else .error .pastEnd

/-- A reader whose refusals have an error of their own. -/
def refusedAs (error : ε') (r : Read ε α) : Read ε' α :=
  r.mapError fun failure =>
    match failure with
    | .refused _ => .refused error
    | .pastEnd => .pastEnd

/-- Goes on from an offset while it is below the length.  A walk that needs
more steps than `fuel` fails. -/
def walk (step : Nat → σ → Read ε (Nat × σ)) (length : Nat) :
    Nat → Nat → σ → Read ε σ
  | 0, offset, s => if offset < length then .error .pastEnd else .ok s
  | fuel + 1, offset, s =>
      if offset < length then do
        let next ← step offset s
        walk step length fuel next.1 next.2
      else .ok s

section Walks

theorem readBe_eq_ok {data : Bytes} {pos n v : Nat} :
    (readBe data pos n : Read ε Nat) = .ok v ↔
      pos + n ≤ data.length ∧ beNat ((data.drop pos).take n) = v := by
  unfold readBe slice
  split
  next h => simp [h, Except.map]
  next h => simp [h, Except.map]

theorem sub_eq_ok {a b c : Nat} :
    (sub a b : Read ε Nat) = .ok c ↔ b ≤ a ∧ a - b = c := by
  unfold sub
  split
  next h => simp [h]
  next h => simp [h]

theorem refusedAs_eq_ok {error : ε'} {r : Read ε α} {a : α} :
    refusedAs error r = .ok a ↔ r = .ok a := by
  cases r with
  | error e => simp [refusedAs, Except.mapError]
  | ok b => simp [refusedAs, Except.mapError]

theorem yields_readBe {data : Bytes} {pos n : Nat}
    (h : pos + n ≤ data.length) :
    Yields (readBe data pos n : Read ε Nat) fun v => v < 256 ^ n := by
  constructor
  · rw [readBe, slice, if_pos h]
    exact inside_pure _
  · intro v hv
    obtain ⟨-, rfl⟩ := readBe_eq_ok.mp hv
    have hlt := beNat_lt ((data.drop pos).take n)
    have hlen : ((data.drop pos).take n).length = n := by
      rw [List.length_take, List.length_drop]
      omega
    rwa [hlen] at hlt

theorem yields_sub {a b : Nat} (h : b ≤ a) :
    Yields (sub a b : Read ε Nat) fun c => c = a - b := by
  rw [sub, if_pos h]
  exact yields_pure rfl

theorem yields_refusedAs {error : ε'} {r : Read ε α} {P : α → Prop}
    (hr : Yields r P) : Yields (refusedAs error r) P := by
  constructor
  · cases r with
    | ok a => exact inside_pure a
    | error e =>
        cases e with
        | refused e => exact inside_refused error
        | pastEnd => exact absurd rfl hr.inside
  · intro a ha
    exact hr.result a (refusedAs_eq_ok.mp ha)

variable {step : Nat → σ → Read ε (Nat × σ)} {length : Nat}

/-- A walk on which every step advances comes to its end, and what every step
keeps holds there. -/
theorem Yields.walk {I : Nat → σ → Prop}
    (hstep : ∀ offset < length, ∀ s, I offset s →
      Yields (step offset s) fun next => offset < next.1 ∧ I next.1 next.2)
    {fuel offset : Nat} (hfuel : length ≤ offset + fuel) (s : σ)
    (hs : I offset s) :
    Yields (CheckedRead.walk step length fuel offset s)
      fun s' => ∃ last, length ≤ last ∧ I last s' := by
  induction fuel generalizing offset s with
  | zero =>
      have hend : ¬offset < length := not_lt.mpr hfuel
      rw [CheckedRead.walk, if_neg hend]
      exact yields_pure ⟨offset, hfuel, hs⟩
  | succ fuel ih =>
      rw [CheckedRead.walk]
      split_ifs with hlt
      · apply (hstep offset hlt s hs).bind
        intro next hnext
        exact ih (by omega) next.2 hnext.2
      · exact yields_pure ⟨offset, not_lt.mp hlt, hs⟩

end Walks

/-! ## Buffers in parts -/

theorem slice_middle {front field rest : Bytes} {pos n : Nat}
    (hpos : front.length = pos) (hn : field.length = n) :
    (slice (front ++ (field ++ rest)) pos n : Read ε Bytes) = .ok field := by
  refine slice_eq_ok.mpr ⟨?_, ?_⟩
  · rw [List.length_append, List.length_append]
    omega
  · rw [List.drop_left' hpos, List.take_left' hn]

theorem readBe_middle {front field rest : Bytes} {pos n : Nat}
    (hpos : front.length = pos) (hn : field.length = n) :
    (readBe (front ++ (field ++ rest)) pos n : Read ε Nat) =
      .ok (beNat field) := by
  rw [readBe, slice_middle hpos hn]
  rfl

/-! ## Buffers with the same front -/

section Front

variable {data data' : Bytes} {m pos n : Nat}

theorem le_length_of_front (hfront : data'.take m = data.take m) (hn : n ≤ m)
    (hlength : n ≤ data.length) : n ≤ data'.length := by
  have hboth := congrArg List.length hfront
  rw [List.length_take, List.length_take] at hboth
  omega

theorem slice_of_front (hfront : data'.take m = data.take m)
    (hinside : pos + n ≤ m) :
    (slice data' pos n : Read ε Bytes) = slice data pos n := by
  have hbytes : ∀ bs : Bytes,
      (bs.drop pos).take n = ((bs.take m).drop pos).take n := by
    intro bs
    rw [List.drop_take, List.take_take, Nat.min_eq_left (by omega)]
  have hiff : pos + n ≤ data'.length ↔ pos + n ≤ data.length :=
    ⟨le_length_of_front hfront.symm hinside, le_length_of_front hfront hinside⟩
  rw [slice, slice, hbytes, hfront, ← hbytes]
  simp only [hiff]

theorem readBe_of_front (hfront : data'.take m = data.take m)
    (hinside : pos + n ≤ m) :
    (readBe data' pos n : Read ε Nat) = readBe data pos n := by
  rw [readBe, slice_of_front hfront hinside, readBe]

end Front

/-! ## Single bytes -/

/-- The byte at a position. -/
def byteAt (data : Bytes) (pos : Nat) : Read ε UInt8 :=
  match data[pos]? with
  | some c => .ok c
  | none => .error .pastEnd

/-- The buffer with another byte at a position. -/
def store (data : Bytes) (pos : Nat) (c : UInt8) : Read ε Bytes :=
  if pos < data.length then .ok (data.set pos c) else .error .pastEnd

section Single

variable {data : Bytes} {pos : Nat} {c : UInt8}

theorem byteAt_of_getElem? (h : data[pos]? = some c) :
    (byteAt data pos : Read ε UInt8) = .ok c := by
  rw [byteAt, h]

theorem yields_byteAt (h : pos < data.length) :
    Yields (byteAt data pos : Read ε UInt8) fun c => data[pos]? = some c := by
  have hget : data[pos]? = some data[pos] := List.getElem?_eq_getElem h
  rw [byteAt_of_getElem? hget]
  exact yields_pure hget

theorem store_of_lt (h : pos < data.length) :
    (store data pos c : Read ε Bytes) = .ok (data.set pos c) := by
  rw [store, if_pos h]

theorem yields_store (h : pos < data.length) :
    Yields (store data pos c : Read ε Bytes)
      fun data' => data'.length = data.length := by
  rw [store_of_lt h]
  exact yields_pure (List.length_set)

/-- A byte that is stored behind the bytes in front of it. -/
theorem take_set_next {front : Bytes} (hfront : data.take front.length = front)
    (h : front.length < data.length) :
    (data.set front.length c).take (front.length + 1) = front ++ [c] := by
  rw [List.take_succ_eq_append_getElem (by rwa [List.length_set]),
    List.take_set_of_le (le_refl _), hfront, List.getElem_set_self]

end Single

/-! ## Loops -/

/-- A loop of turns that go on or end it.  One that needs more turns than
`fuel` has no result. -/
def loop (turn : σ → Read ε (σ ⊕ β)) : Nat → σ → Option (Read ε β)
  | 0, _ => none
  | fuel + 1, s =>
      match turn s with
      | .error e => some (.error e)
      | .ok (.inl s') => loop turn fuel s'
      | .ok (.inr b) => some (.ok b)

section Loops

variable {turn : σ → Read ε (σ ⊕ β)} {Q : β → Prop}

theorem loop_more {s s' : σ} (h : turn s = .ok (.inl s')) (fuel : Nat) :
    loop turn (fuel + 1) s = loop turn fuel s' := by
  rw [loop, h]

theorem loop_mono {s : σ} {fuel : Nat} {r : Read ε β}
    (h : loop turn fuel s = some r) (more : Nat) :
    loop turn (fuel + more) s = some r := by
  induction fuel generalizing s with
  | zero => simp [loop] at h
  | succ fuel ih =>
      rw [Nat.add_right_comm]
      cases hresult : turn s with
      | error e =>
          rw [loop, hresult] at h
          rw [loop, hresult]
          exact h
      | ok next =>
          cases next with
          | inl s' =>
              rw [loop_more hresult] at h
              rw [loop_more hresult]
              exact ih h
          | inr b =>
              rw [loop, hresult] at h
              rw [loop, hresult]
              exact h

theorem loop_done {s : σ} {b : β} (h : turn s = .ok (.inr b)) (fuel : Nat) :
    loop turn (fuel + 1) s = some (.ok b) := by
  rw [loop, h]

/-- A loop whose turns decrease a measure ends, and how many turns it is
given does not change its result. -/
theorem loop_ends {I : σ → Prop} {measure : σ → Nat}
    (hturn : ∀ s, I s → Yields (turn s)
      (Sum.elim (fun s' => I s' ∧ measure s' < measure s) Q))
    {s : σ} (hs : I s) :
    ∃ r, Yields r Q ∧ ∀ fuel, measure s < fuel →
      loop turn fuel s = some r := by
  induction hm : measure s using Nat.strong_induction_on generalizing s with
  | h m ih =>
      have hyields := hturn s hs
      cases hresult : turn s with
      | error e =>
          rw [hresult] at hyields
          refine ⟨.error e, ⟨?_, ?_⟩, ?_⟩
          · intro he
            apply hyields.inside
            cases he
            rfl
          · rintro b ⟨⟩
          · intro fuel hfuel
            obtain ⟨fuel, rfl⟩ := Nat.exists_eq_add_one_of_ne_zero
              (Nat.ne_zero_of_lt hfuel)
            rw [loop, hresult]
      | ok next =>
          have hnext := hyields.result next hresult
          cases next with
          | inl s' =>
              obtain ⟨hs', hless⟩ := hnext
              obtain ⟨r, hr, hloop⟩ := ih _ (hm ▸ hless) hs' rfl
              refine ⟨r, hr, ?_⟩
              intro fuel hfuel
              obtain ⟨fuel, rfl⟩ := Nat.exists_eq_add_one_of_ne_zero
                (Nat.ne_zero_of_lt hfuel)
              rw [loop_more hresult]
              apply hloop
              omega
          | inr b =>
              refine ⟨.ok b, yields_pure hnext, ?_⟩
              intro fuel hfuel
              obtain ⟨fuel, rfl⟩ := Nat.exists_eq_add_one_of_ne_zero
                (Nat.ne_zero_of_lt hfuel)
              exact loop_done hresult fuel

end Loops

/-- Where nothing is refused, a reader has a result. -/
theorem Yields.exists_ok {r : Read Empty α} {P : α → Prop} (h : Yields r P) :
    ∃ a, r = .ok a ∧ P a := by
  cases hr : r with
  | error e =>
      cases e with
      | refused e => exact e.elim
      | pastEnd => exact absurd hr h.inside
  | ok a => exact ⟨a, rfl, h.result a hr⟩

end CheckedRead
