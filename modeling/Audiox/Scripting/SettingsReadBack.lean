import Audiox.Scripting.ScriptSettings
import Mathlib

/-!
# Reading settings back

The line of an accepted entry is read as an entry with the same key, kind and
value, unless it holds a subnormal number.  Such a number is written like all
others, and on reading `strtod` reports it as out of range.
-/

namespace Audiox.Scripting.ScriptSettings

open ByteCodec Config Scenes KeyedList KeyedArray ScriptStateEntry

variable {D : Type} {doubles : Doubles D}

/-- What the machine promises for finite numbers: seventeen digits determine
a number, and only subnormal ones set `errno`. -/
structure Doubles.Exact (doubles : Doubles D) : Prop where
  finite : ∀ i, doubles.isFinite (doubles.ofInteger i) = true
  equal_self : ∀ d, doubles.isFinite d = true → doubles.equal d d = true
  printed : ∀ d, doubles.isFinite d = true →
    doubles.print d ≠ [] ∧ (doubles.print d).length ≤ 24 ∧
      ∀ c ∈ doubles.print d, 32 < c
  read : ∀ d, doubles.isFinite d = true →
    doubles.strtod (doubles.print d) = (d, [], doubles.subnormal d)

/-! ## Hexadecimal texts -/

theorem hexPair_spec (c : UInt8) :
    digit (hexDigit (c >>> 4)) = some (c >>> 4) ∧
      digit (hexDigit (c &&& 15)) = some (c &&& 15) ∧
      (c >>> 4) * 16 + (c &&& 15) = c := by
  have hall : ∀ n < 256, ∀ d : UInt8, d = UInt8.ofNat n →
      digit (hexDigit (d >>> 4)) = some (d >>> 4) ∧
      digit (hexDigit (d &&& 15)) = some (d &&& 15) ∧
      (d >>> 4) * 16 + (d &&& 15) = d := by
    simp only [forall_eq]
    decide +kernel
  exact hall c.toNat c.toNat_lt c UInt8.ofNat_toNat.symm

theorem unhexPairs_encode {text : Bytes} (h : 0 ∉ text) :
    unhexPairs (encode text) = some text := by
  induction text with
  | nil => rfl
  | cons c text ih =>
      rw [List.mem_cons, not_or] at h
      obtain ⟨hhigh, hlow, hjoin⟩ := hexPair_spec c
      have hne : ¬(c >>> 4 = 0 ∧ c &&& 15 = 0) :=
        fun hboth => h.1 ((hexDigits_spec c).2.2.2.1 hboth).symm
      rw [encode_cons, unhexPairs, hhigh, hlow]
      simp only [Option.bind_eq_bind, Option.bind_some, if_neg hne, ih h.2,
        Option.map_some, hjoin]

theorem unhex_hex {text : Bytes} {capacity : Nat}
    (h : (cstr text).length < capacity) :
    unhex (hex text) capacity = some (cstr text) := by
  rw [unhex, hex, length_encode, if_neg (by omega),
    unhexPairs_encode (zero_notMem_cstr text)]

theorem cstr_take (text : Bytes) (size : Nat) :
    cstr (text.take size) = (cstr text).take size := by
  induction text generalizing size with
  | nil => simp [cstr]
  | cons c text ih =>
      cases size with
      | zero => rfl
      | succ size =>
          rw [List.take_succ_cons, cstr, cstr, List.takeWhile_cons,
            List.takeWhile_cons]
          split
          · rw [List.take_succ_cons]
            exact congrArg _ (ih size)
          · rfl

theorem strnlen_eq (text : Bytes) (size : Nat) :
    strnlen text size = min size (cstr text).length := by
  rw [strnlen, cstr_take, List.length_take]

theorem validKey_iff {key : Bytes} :
    validKey key = true ↔ 0 < (cstr key).length ∧ (cstr key).length < 32 := by
  have hsize : keySize = 32 := rfl
  simp only [validKey, Bool.and_eq_true, bne_iff_ne, strnlen_eq, hsize]
  omega

/-! ## Integers -/

theorem dropWhile_space_word {word : Bytes} (h : IsWord word) :
    word.dropWhile Config.isSpace = word := by
  obtain ⟨c, rest, rfl⟩ := List.exists_cons_of_ne_nil h.1
  rw [List.dropWhile_cons_of_neg]
  rw [isSpace_of_lt (h.2 c (by simp))]
  exact Bool.false_ne_true

theorem strtoll_showInt (i : Int64) :
    strtoll (showInt i.toInt) = (i, [], false) := by
  have hdigits : ∀ c ∈ showDecimal i.toInt.natAbs, isDigit c = true :=
    fun c => isDigit_of_mem_showDecimal
  have hne := showDecimal_ne_nil i.toInt.natAbs
  have htake : (showDecimal i.toInt.natAbs).takeWhile isDigit =
      showDecimal i.toInt.natAbs := List.takeWhile_eq_self_iff.mpr hdigits
  have hdrop : (showDecimal i.toInt.natAbs).dropWhile isDigit = [] :=
    List.dropWhile_eq_nil_iff.mpr hdigits
  have hclamp : clampLong i.toInt = i.toInt := by
    have hlow := i.le_toInt
    have hhigh := i.toInt_lt
    rw [clampLong]
    omega
  have hsign : takeSign (showInt i.toInt) =
      (decide (i.toInt < 0), showDecimal i.toInt.natAbs) := by
    rw [showInt]
    by_cases hneg : i.toInt < 0
    · rw [if_pos hneg, decide_eq_true hneg]
      rfl
    · have hplain := takeSign_digits hne hdigits []
      rw [List.append_nil] at hplain
      rw [if_neg hneg, decide_eq_false hneg, hplain]
  have hvalue : (if decide (i.toInt < 0) = true then
      -((i.toInt.natAbs : Nat) : Int) else (i.toInt.natAbs : Nat)) = i.toInt := by
    by_cases hneg : i.toInt < 0
    · rw [if_pos (decide_eq_true hneg)]
      omega
    · rw [if_neg (by simpa using hneg)]
      omega
  rw [strtoll, dropWhile_space_word (isWord_showInt _), hsign]
  simp only [htake, hdrop, if_neg hne, decimal_showDecimal, hvalue, hclamp,
    Int64.ofInt_toInt, ne_eq, not_true_eq_false, decide_false]

theorem length_showInt_le (i : Int64) : (showInt i.toInt).length ≤ 20 := by
  have hlow := i.le_toInt
  have hhigh := i.toInt_lt
  have hdecimal : (showDecimal i.toInt.natAbs).length ≤ 19 :=
    length_showDecimal_le (by decide) (by omega)
  rw [showInt]
  split
  · rw [List.length_cons]
    omega
  · omega

/-! ## One entry -/

/-- The kind and the value of an entry, as its line has them. -/
def valueFields (doubles : Doubles D) (e : ScriptStateEntry D) : UInt8 × Bytes :=
  match e.kind with
  | .string => (chr 's', hex e.stringValue)
  | .boolean => (chr 'b', if e.booleanValue then ascii "1" else ascii "0")
  | .number =>
      if e.numberIsInteger then (chr 'i', showInt e.integerValue.toInt)
      else (chr 'n', doubles.print e.numberValue)

/-- An entry as it is read back. -/
def reread (doubles : Doubles D) (e : ScriptStateEntry D) : ScriptStateEntry D :=
  match e.kind with
  | .string =>
      { blank doubles with
        key := e.keyText
        kind := .string
        stringValue := cstr e.stringValue }
  | .boolean =>
      { blank doubles with
        key := e.keyText
        kind := .boolean
        booleanValue := e.booleanValue }
  | .number =>
      if e.numberIsInteger then
        { blank doubles with
          key := e.keyText
          kind := .number
          numberIsInteger := true
          integerValue := e.integerValue
          numberValue := doubles.ofInteger e.integerValue }
      else
        { blank doubles with
          key := e.keyText
          kind := .number
          numberValue := e.numberValue }

/-- Whether an entry is a number that reading refuses. -/
def subnormalNumber (doubles : Doubles D) (e : ScriptStateEntry D) : Bool :=
  decide (e.kind = .number) && !e.numberIsInteger &&
    doubles.subnormal e.numberValue

/-- The value of an entry with its kind and its integer flag. -/
inductive SettingValue (D : Type) where
  | boolean (value : Bool)
  | integer (value : Int64)
  | number (value : D)
  | string (value : Bytes)

def valueOf (e : ScriptStateEntry D) : SettingValue D :=
  match e.kind with
  | .boolean => .boolean e.booleanValue
  | .string => .string (cstr e.stringValue)
  | .number =>
      if e.numberIsInteger then .integer e.integerValue
      else .number e.numberValue

variable {e : ScriptStateEntry D}

/-- What an accepted entry satisfies, by its kind. -/
theorem validSetting_iff :
    validSetting doubles e = true ↔
      validKey e.key = true ∧
        (e.kind = .string → (cstr e.stringValue).length < 128) ∧
        (e.kind = .number → doubles.isFinite e.numberValue = true ∧
          (e.numberIsInteger = true →
            doubles.equal e.numberValue
              (doubles.ofInteger e.integerValue) = true)) := by
  have hsize : stringSize = 128 := rfl
  rw [validSetting, Bool.and_eq_true]
  refine and_congr_right fun _ => ?_
  cases e.kind with
  | boolean => simp
  | string => simp [strnlen_eq, hsize]
  | number => cases e.numberIsInteger <;> simp

theorem keyText_reread (e : ScriptStateEntry D) :
    (reread doubles e).keyText = e.keyText := by
  have hkey : cstr (cstr e.key) = cstr e.key := cstr_eq_self (zero_notMem_cstr _)
  rw [reread]
  cases e.kind with
  | boolean => exact hkey
  | string => exact hkey
  | number => cases e.numberIsInteger <;> exact hkey

theorem valueOf_reread (e : ScriptStateEntry D) :
    valueOf (reread doubles e) = valueOf e := by
  rw [reread, valueOf]
  cases hkind : e.kind with
  | boolean => simp only [valueOf, hkind]
  | string =>
      have htext : cstr (cstr e.stringValue) = cstr e.stringValue :=
        cstr_eq_self (zero_notMem_cstr _)
      simp only [valueOf, hkind, htext]
  | number =>
      cases hinteger : e.numberIsInteger <;>
        simp [valueOf, hkind, hinteger, blank]

theorem validSetting_reread (hexact : doubles.Exact)
    (h : validSetting doubles e = true) :
    validSetting doubles (reread doubles e) = true := by
  obtain ⟨hkey, hstring, hnumber⟩ := validSetting_iff.mp h
  have hkey' : validKey (cstr e.key) = true := by
    rw [validKey_iff] at hkey ⊢
    rwa [cstr_eq_self (zero_notMem_cstr _)]
  rw [validSetting_iff, reread]
  cases hkind : e.kind with
  | boolean => exact ⟨hkey', by simp, by simp⟩
  | string =>
      refine ⟨hkey', fun _ => ?_, by simp⟩
      rw [cstr_eq_self (zero_notMem_cstr _)]
      exact hstring hkind
  | number =>
      obtain ⟨hfinite, -⟩ := hnumber hkind
      cases e.numberIsInteger with
      | true =>
          refine ⟨hkey', by simp, fun _ => ⟨hexact.finite _, fun _ => ?_⟩⟩
          exact hexact.equal_self _ (hexact.finite _)
      | false => exact ⟨hkey', by simp, fun _ => ⟨hfinite, by simp [blank]⟩⟩

theorem subnormalNumber_reread (h : subnormalNumber doubles e = false) :
    subnormalNumber doubles (reread doubles e) = false := by
  rw [subnormalNumber] at h ⊢
  rw [reread]
  cases hkind : e.kind with
  | boolean => rfl
  | string => rfl
  | number =>
      cases hinteger : e.numberIsInteger with
      | true => rfl
      | false => simpa [hkind, hinteger, blank] using h

theorem printed_hex {text : Bytes} {c : UInt8} (h : c ∈ hex text) : 32 < c :=
  lt_of_mem_encode h

theorem lt_valueFields_fst (doubles : Doubles D) (e : ScriptStateEntry D) :
    32 < (valueFields doubles e).1 := by
  have hb : 32 < chr 'b' := by decide
  have hs : 32 < chr 's' := by decide
  have hi : 32 < chr 'i' := by decide
  have hn : 32 < chr 'n' := by decide
  rw [valueFields]
  cases e.kind with
  | boolean => exact hb
  | string => exact hs
  | number =>
      cases e.numberIsInteger with
      | true => exact hi
      | false => exact hn

/-- The value of an accepted entry is short, and has no blanks. -/
theorem valueFields_spec (hexact : doubles.Exact)
    (h : validSetting doubles e = true) :
    (valueFields doubles e).2.length ≤ 254 ∧
      ∀ c ∈ (valueFields doubles e).2, 32 < c := by
  obtain ⟨-, hstring, hnumber⟩ := validSetting_iff.mp h
  rw [valueFields]
  cases hkind : e.kind with
  | boolean =>
      have hone : ascii "1" = [49] := by decide
      have hzero : ascii "0" = [48] := by decide
      cases e.booleanValue with
      | true => simp [hone]
      | false => simp [hzero]
  | string =>
      have hlen := hstring hkind
      constructor
      · dsimp only
        rw [hex, length_encode]
        omega
      · exact fun c => printed_hex
  | number =>
      obtain ⟨hfinite, -⟩ := hnumber hkind
      cases e.numberIsInteger with
      | true =>
          have hlen := length_showInt_le e.integerValue
          constructor
          · exact hlen.trans (by decide)
          · exact (isWord_showInt _).2
      | false =>
          obtain ⟨-, hlen, hprinted⟩ := hexact.printed _ hfinite
          exact ⟨hlen.trans (by decide), hprinted⟩

/-- The buffer of a number is never too small. -/
theorem valueText_eq (hexact : doubles.Exact)
    (h : validSetting doubles e = true) :
    valueText doubles e = (valueFields doubles e).1 :: chr '\t' ::
      (valueFields doubles e).2 := by
  obtain ⟨-, -, hnumber⟩ := validSetting_iff.mp h
  have hsize : numberSize = 64 := rfl
  rw [valueText, valueFields]
  cases hkind : e.kind with
  | boolean => cases e.booleanValue <;> rfl
  | string => rfl
  | number =>
      obtain ⟨hfinite, -⟩ := hnumber hkind
      cases e.numberIsInteger with
      | true =>
          have hlen := length_showInt_le e.integerValue
          exact List.take_of_length_le (by
            rw [List.length_append, show (ascii "i\t").length = 2 from rfl]
            omega)
      | false =>
          obtain ⟨-, hlen, -⟩ := hexact.printed _ hfinite
          exact List.take_of_length_le (by
            rw [List.length_append, show (ascii "n\t").length = 2 from rfl]
            omega)

theorem readValue_fields (hexact : doubles.Exact)
    (h : validSetting doubles e = true) :
    readValue doubles e.keyText (valueFields doubles e).1
        (valueFields doubles e).2 =
      if subnormalNumber doubles e = true then none
      else some (reread doubles e) := by
  obtain ⟨-, hstring, hnumber⟩ := validSetting_iff.mp h
  rw [valueFields, subnormalNumber, reread]
  cases hkind : e.kind with
  | boolean => cases e.booleanValue <;> rfl
  | string =>
      have htext : unhex (hex e.stringValue) stringSize =
          some (cstr e.stringValue) := unhex_hex (hstring hkind)
      have hb : ¬chr 's' = chr 'b' := by decide
      have hi : ¬chr 's' = chr 'i' := by decide
      have hn : ¬chr 's' = chr 'n' := by decide
      simp [readValue, htext, hb, hi, hn]
  | number =>
      obtain ⟨hfinite, -⟩ := hnumber hkind
      cases hinteger : e.numberIsInteger with
      | true =>
          have hb : ¬chr 'i' = chr 'b' := by decide
          have hne := (isWord_showInt e.integerValue.toInt).1
          simp [readValue, strtoll_showInt, hb, hne]
      | false =>
          have hb : ¬chr 'n' = chr 'b' := by decide
          have hi : ¬chr 'n' = chr 'i' := by decide
          obtain ⟨hne, -, -⟩ := hexact.printed _ hfinite
          cases hsub : doubles.subnormal e.numberValue <;>
            simp [readValue, hexact.read _ hfinite, hsub, hb, hi, hne]

/-! ## A whole file -/

/-- A line is cut at its own tab and at its own end. -/
theorem cutEntry_parts {key value : Bytes} {kind : UInt8}
    (hkey : ∀ c ∈ key, 32 < c) (hkind : 32 < kind)
    (hvalue : ∀ c ∈ value, 32 < c) (rest : Bytes) {text : Bytes}
    (htext : text = key ++ chr '\t' :: kind :: chr '\t' ::
      (value ++ chr '\n' :: rest)) :
    cutEntry text (text.idxOf (chr '\n')) (text.idxOf (chr '\t')) =
      some ⟨key, kind, value, rest⟩ := by
  have htab : ∀ s : Bytes, (∀ c ∈ s, 32 < c) → chr '\t' ∉ s :=
    fun s hs hmem => absurd (hs _ hmem) (by decide)
  have hnewline : ∀ s : Bytes, (∀ c ∈ s, 32 < c) → chr '\n' ∉ s :=
    fun s hs hmem => absurd (hs _ hmem) (by decide)
  have hstop : text.idxOf (chr '\t') = key.length := by
    rw [htext, List.idxOf_append_of_notMem (htab key hkey), List.idxOf_cons_self]
    rfl
  have hfront : chr '\n' ∉ key ++ chr '\t' :: kind :: chr '\t' :: value := by
    simp only [List.mem_append, List.mem_cons, not_or]
    refine ⟨hnewline key hkey, by decide, ?_, by decide, hnewline value hvalue⟩
    rintro rfl
    exact absurd hkind (by decide)
  have hjoin : text = (key ++ chr '\t' :: kind :: chr '\t' :: value) ++
      chr '\n' :: rest := by
    rw [htext]
    simp
  have hfin : text.idxOf (chr '\n') = key.length + 3 + value.length := by
    rw [hjoin, List.idxOf_append_of_notMem hfront, List.idxOf_cons_self]
    simp only [List.length_append, List.length_cons]
    omega
  have hlen : text.length = key.length + 3 + value.length + 1 + rest.length := by
    rw [htext]
    simp only [List.length_append, List.length_cons]
    omega
  have hafter : text[key.length + 2]? = some (chr '\t') := by
    rw [htext, List.getElem?_append_right (by omega), Nat.add_sub_cancel_left]
    rfl
  have hbehind : text.drop (key.length + 3) = value ++ chr '\n' :: rest := by
    rw [htext, List.drop_append, List.drop_eq_nil_of_le (by omega),
      Nat.add_sub_cancel_left]
    rfl
  have hrest : text.drop (key.length + 3 + value.length + 1) = rest := by
    rw [show key.length + 3 + value.length + 1 =
      (key.length + 3) + (value.length + 1) from by omega, ← List.drop_drop,
      hbehind, List.drop_append, List.drop_eq_nil_of_le (by omega),
      Nat.add_sub_cancel_left]
    rfl
  rw [hfin, hstop, cutEntry, if_neg, hbehind, hrest]
  · congr 2
    · rw [htext, List.take_left']
      rfl
    · rw [htext, List.getD_append_right _ _ _ _ (by omega),
        Nat.add_sub_cancel_left]
      rfl
    · rw [show key.length + 3 + value.length - key.length - 3 = value.length
        from by omega, List.take_left']
      rfl
  · rw [hafter]
    push Not
    exact ⟨by omega, by omega, by omega, rfl⟩

/-- The text of settings, where another line follows. -/
theorem entryLine_append (hexact : doubles.Exact)
    (h : validSetting doubles e = true) (rest : Bytes) :
    entryLine doubles e ++ rest =
      hex e.key ++ chr '\t' :: (valueFields doubles e).1 :: chr '\t' ::
        ((valueFields doubles e).2 ++ chr '\n' :: rest) := by
  have htab : ascii "\t" = [chr '\t'] := by decide
  have hend : ascii "\n" = [chr '\n'] := by decide
  rw [entryLine, valueText_eq hexact h, htab, hend]
  simp

theorem cutEntry_line (hexact : doubles.Exact)
    (h : validSetting doubles e = true) (rest : Bytes) :
    cutEntry (entryLine doubles e ++ rest)
        ((entryLine doubles e ++ rest).idxOf (chr '\n'))
        ((entryLine doubles e ++ rest).idxOf (chr '\t')) =
      some ⟨hex e.key, (valueFields doubles e).1, (valueFields doubles e).2,
        rest⟩ := by
  exact cutEntry_parts (fun c => printed_hex) (lt_valueFields_fst doubles e)
    (valueFields_spec hexact h).2 rest (entryLine_append hexact h rest)

theorem entryLine_ne_nil (doubles : Doubles D) (e : ScriptStateEntry D)
    (rest : Bytes) : entryLine doubles e ++ rest ≠ [] := by
  have hend : ascii "\n" = [chr '\n'] := by decide
  rw [entryLine, hend]
  simp

theorem unhex_key (h : validSetting doubles e = true) :
    unhex (hex e.key) keySize = some e.keyText := by
  obtain ⟨hkey, -⟩ := validSetting_iff.mp h
  exact unhex_hex (validKey_iff.mp hkey).2

/-- One round of the reader, at the line of an accepted entry. -/
theorem readEntries_line (hexact : doubles.Exact)
    (h : validSetting doubles e = true) (rounds : Nat) (rest : Bytes)
    {acc : List (ScriptStateEntry D)}
    (hroom : acc.length ≠ SCRIPT_STATE_ENTRIES_MAX) :
    readEntries doubles (rounds + 1) (entryLine doubles e ++ rest) acc =
      if subnormalNumber doubles e = true then none
      else if acc.any (fun a => a.keyText == e.keyText) = true then none
      else readEntries doubles rounds rest (acc ++ [reread doubles e]) := by
  rw [readEntries, if_neg (entryLine_ne_nil doubles e rest),
    cutEntry_line hexact h rest]
  simp only [Option.bind_eq_bind, Option.bind_some, if_neg hroom, unhex_key h,
    readValue_fields hexact h]
  by_cases hsub : subnormalNumber doubles e = true
  · rw [if_pos hsub, if_pos hsub]
    rfl
  · rw [if_neg hsub, if_neg hsub]
    simp only [Option.bind_some, validSetting_reread hexact h,
      keyText_reread, Bool.true_eq_false, if_false]

/-- Entries that can be kept together: all are accepted and none is refused on
reading, no key is repeated, and there is room for them. -/
structure Kept (doubles : Doubles D) (entries : List (ScriptStateEntry D)) :
    Prop where
  valid : ∀ e ∈ entries, validSetting doubles e = true
  normal : ∀ e ∈ entries, subnormalNumber doubles e = false
  keys : (entries.map keyText).Nodup
  room : entries.length ≤ SCRIPT_STATE_ENTRIES_MAX

theorem readEntries_lines (hexact : doubles.Exact)
    {entries : List (ScriptStateEntry D)}
    (hvalid : ∀ e ∈ entries, validSetting doubles e = true)
    (hnormal : ∀ e ∈ entries, subnormalNumber doubles e = false)
    (rounds : Nat) (hrounds : entries.length ≤ rounds)
    (acc : List (ScriptStateEntry D))
    (hkeys : (acc.map keyText ++ entries.map keyText).Nodup)
    (hroom : acc.length + entries.length ≤ SCRIPT_STATE_ENTRIES_MAX) :
    readEntries doubles rounds (entries.flatMap (entryLine doubles)) acc =
      some (acc ++ entries.map (reread doubles)) := by
  induction entries generalizing rounds acc with
  | nil =>
      rw [List.flatMap_nil, List.map_nil, List.append_nil]
      cases rounds <;> rfl
  | cons e entries ih =>
      rw [List.length_cons] at hrounds hroom
      obtain ⟨rounds, rfl⟩ : ∃ n, rounds = n + 1 := ⟨rounds - 1, by omega⟩
      have hnew : ¬acc.any (fun a => a.keyText == e.keyText) = true := by
        intro hany
        obtain ⟨a, ha, hkey⟩ := List.any_eq_true.mp hany
        rw [List.nodup_append'] at hkeys
        exact hkeys.2.2 (List.mem_map_of_mem ha)
          (by rw [eq_of_beq hkey]; simp)
      rw [List.flatMap_cons,
        readEntries_line hexact (hvalid e (by simp)) rounds _ (by omega),
        if_neg (by simp [hnormal e (by simp)]), if_neg hnew,
        ih (fun a ha => hvalid a (List.mem_cons_of_mem _ ha))
          (fun a ha => hnormal a (List.mem_cons_of_mem _ ha)) rounds
          (by omega) _ _ _]
      · rw [List.map_cons, List.append_assoc, List.singleton_append]
      · rw [List.map_append, List.map_singleton, keyText_reread,
          List.append_assoc, List.singleton_append]
        exact hkeys
      · rw [List.length_append, List.length_singleton]
        omega

/-- One subnormal number makes the rest unreadable too. -/
theorem readEntries_subnormal (hexact : doubles.Exact)
    {entries : List (ScriptStateEntry D)}
    (hvalid : ∀ e ∈ entries, validSetting doubles e = true)
    (hsub : ∃ e ∈ entries, subnormalNumber doubles e = true)
    (rounds : Nat) (acc : List (ScriptStateEntry D)) :
    readEntries doubles rounds (entries.flatMap (entryLine doubles)) acc =
      none := by
  induction entries generalizing rounds acc with
  | nil =>
      obtain ⟨e, he, -⟩ := hsub
      exact absurd he List.not_mem_nil
  | cons e entries ih =>
      rw [List.flatMap_cons]
      cases rounds with
      | zero => rw [readEntries, if_neg (entryLine_ne_nil doubles e _)]
      | succ rounds =>
          by_cases hroom : acc.length = SCRIPT_STATE_ENTRIES_MAX
          · rw [readEntries, if_neg (entryLine_ne_nil doubles e _),
              cutEntry_line hexact (hvalid e (by simp))]
            simp only [Option.bind_eq_bind, Option.bind_some, if_pos hroom]
          · rw [readEntries_line hexact (hvalid e (by simp)) rounds _ hroom]
            split
            · rfl
            · next hnormal =>
                split
                · rfl
                · apply ih fun a ha => hvalid a (List.mem_cons_of_mem _ ha)
                  obtain ⟨a, ha, hsub⟩ := hsub
                  rcases List.mem_cons.mp ha with rfl | ha
                  · exact absurd hsub hnormal
                  · exact ⟨a, ha, hsub⟩

/-! ## The size of a file -/

theorem length_entryLine_le (hexact : doubles.Exact)
    (h : validSetting doubles e = true) :
    (entryLine doubles e).length ≤ 320 := by
  have hline := entryLine_append hexact h []
  obtain ⟨hlen, -⟩ := valueFields_spec hexact h
  obtain ⟨hkey, -⟩ := validSetting_iff.mp h
  obtain ⟨-, hkey⟩ := validKey_iff.mp hkey
  have hhex : (hex e.key).length = 2 * (cstr e.key).length := length_encode _
  rw [List.append_nil] at hline
  rw [hline]
  simp only [List.length_append, List.length_cons, List.length_nil, hhex]
  omega

theorem zero_notMem_entryLine (hexact : doubles.Exact)
    (h : validSetting doubles e = true) : 0 ∉ entryLine doubles e := by
  have hline := entryLine_append hexact h []
  have hplain : ∀ s : Bytes, (∀ c ∈ s, 32 < c) → 0 ∉ s :=
    fun s hs hmem => absurd (hs 0 hmem) (by decide)
  have hkind : (0 : UInt8) ≠ (valueFields doubles e).1 := by
    intro hzero
    have hlt := lt_valueFields_fst doubles e
    rw [← hzero] at hlt
    exact absurd hlt (by decide)
  have htab : (0 : UInt8) ≠ chr '\t' := by decide
  have hend : (0 : UInt8) ≠ chr '\n' := by decide
  rw [List.append_nil] at hline
  rw [hline]
  simp only [List.mem_append, List.mem_cons, List.not_mem_nil, or_false, not_or]
  exact ⟨hplain _ fun c => printed_hex, htab, hkind, htab,
    hplain _ (valueFields_spec hexact h).2, hend⟩

/-- A file of accepted entries is small, and has no zero byte. -/
theorem settingsText_spec (hexact : doubles.Exact)
    {entries : List (ScriptStateEntry D)}
    (hvalid : ∀ e ∈ entries, validSetting doubles e = true)
    (hroom : entries.length ≤ SCRIPT_STATE_ENTRIES_MAX) :
    (settingsText doubles entries).length ≤ SETTINGS_MAX ∧
      0 ∉ settingsText doubles entries := by
  have hhead : ascii "AX1\n" = [65, 88, 49, 10] := by decide
  have hmax : SCRIPT_STATE_ENTRIES_MAX = 32 := rfl
  have hsize : SETTINGS_MAX = 16384 := rfl
  have hbody : (entries.flatMap (entryLine doubles)).length ≤
      320 * entries.length := by
    clear hroom
    induction entries with
    | nil => simp
    | cons e entries ih =>
        have hline := length_entryLine_le hexact (hvalid e (by simp))
        have hrest := ih fun a ha => hvalid a (List.mem_cons_of_mem _ ha)
        rw [List.flatMap_cons, List.length_append, List.length_cons]
        omega
  rw [settingsText, hhead]
  constructor
  · rw [List.length_append, List.length_cons, List.length_cons,
      List.length_cons, List.length_singleton]
    omega
  · rw [List.mem_append, not_or]
    constructor
    · decide
    · rw [List.mem_flatMap]
      rintro ⟨e, he, hzero⟩
      exact zero_notMem_entryLine hexact (hvalid e he) hzero

theorem length_le_flatMap (doubles : Doubles D)
    (entries : List (ScriptStateEntry D)) :
    entries.length ≤ (entries.flatMap (entryLine doubles)).length := by
  induction entries with
  | nil => simp
  | cons e entries ih =>
      have hline := List.length_pos_of_ne_nil (entryLine_ne_nil doubles e [])
      rw [List.append_nil] at hline
      rw [List.flatMap_cons, List.length_append, List.length_cons]
      omega

/-- Reading a file of accepted entries is reading its lines. -/
theorem readSettings_text (hexact : doubles.Exact)
    {entries : List (ScriptStateEntry D)}
    (hvalid : ∀ e ∈ entries, validSetting doubles e = true)
    (hroom : entries.length ≤ SCRIPT_STATE_ENTRIES_MAX) :
    readSettings doubles (some (settingsText doubles entries)) =
      readEntries doubles (settingsText doubles entries).length
        (entries.flatMap (entryLine doubles)) [] := by
  obtain ⟨hsize, hzero⟩ := settingsText_spec hexact hvalid hroom
  have hhead : (ascii "AX1\n").length = 4 := rfl
  have htake : (settingsText doubles entries).take 4 = ascii "AX1\n" :=
    List.take_left' hhead
  have hdrop : (settingsText doubles entries).drop 4 =
      entries.flatMap (entryLine doubles) := List.drop_left' hhead
  rw [readSettings, if_neg, hdrop]
  rw [htake]
  push Not
  exact ⟨hsize, hzero, rfl⟩

/-- What is kept is read back. -/
theorem readSettings_kept (hexact : doubles.Exact)
    {entries : List (ScriptStateEntry D)} (h : Kept doubles entries) :
    readSettings doubles (some (settingsText doubles entries)) =
      some (entries.map (reread doubles)) := by
  have hrounds : entries.length ≤ (settingsText doubles entries).length := by
    have hlines := length_le_flatMap doubles entries
    rw [settingsText, List.length_append]
    omega
  rw [readSettings_text hexact h.valid h.room,
    readEntries_lines hexact h.valid h.normal _ hrounds [] h.keys
      (by rw [List.length_nil, Nat.zero_add]; exact h.room),
    List.nil_append]

theorem readSettings_subnormal (hexact : doubles.Exact)
    {entries : List (ScriptStateEntry D)}
    (hvalid : ∀ e ∈ entries, validSetting doubles e = true)
    (hroom : entries.length ≤ SCRIPT_STATE_ENTRIES_MAX)
    (hsub : ∃ e ∈ entries, subnormalNumber doubles e = true) :
    readSettings doubles (some (settingsText doubles entries)) = none := by
  rw [readSettings_text hexact hvalid hroom]
  exact readEntries_subnormal hexact hvalid hsub _ []

end Audiox.Scripting.ScriptSettings
