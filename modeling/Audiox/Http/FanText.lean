import Audiox.Http.FanConfig
import Audiox.Scenes.RoundTrip
import Mathlib

/-!
# The text of the fan block

The lines of a block are read as the numbers that they were written from, and
the markers occur in a block where they are written and nowhere else.
-/

namespace Audiox.Http.FanConfig

open ByteCodec Config Checks Pattern Scenes

/-! ## Numbers in entries -/

theorem dropWhile_digits {digits : Bytes} (hdigits : ∀ c ∈ digits, isDigit c = true)
    (hne : digits ≠ []) (rest : Bytes) :
    (digits ++ rest).dropWhile Config.isSpace = digits ++ rest := by
  obtain ⟨c, tail, rfl⟩ := List.exists_cons_of_ne_nil hne
  rw [List.cons_append, List.dropWhile_cons_of_neg]
  simp [(isBlank_of_isDigit (hdigits c (by simp))).2.2]

/-- Digits are scanned up to what follows them. -/
theorem scanLong_digits {digits rest : Bytes}
    (hdigits : ∀ c ∈ digits, isDigit c = true) (hne : digits ≠ [])
    (hrest : ∀ c ∈ rest.head?, isDigit c = false)
    (hsmall : decimal digits < 2 ^ 63) :
    scanLong (digits ++ rest) = some ((decimal digits : Int), rest) := by
  have hcut : (digits ++ rest).takeWhile isDigit = digits ∧
      (digits ++ rest).dropWhile isDigit = rest :=
    ⟨TextFields.takeWhile_word hdigits hrest,
      TextFields.dropWhile_word hdigits hrest⟩
  rw [scanLong, dropWhile_digits hdigits hne, takeSign_digits hne hdigits]
  simp only [hcut, if_neg hne, Bool.false_eq_true, if_false, clampLong]
  congr 2
  omega

theorem decimal_append_digit (digits : Bytes) (c : UInt8) :
    decimal (digits ++ [c]) = decimal digits * 10 + (c.toNat - 48) :=
  List.foldl_concat _ _ _ _

/-- A number and its thousand. -/
theorem thousand_spec {n : Int} (h : 0 ≤ n) :
    (∀ c ∈ showInt n ++ ascii "000", isDigit c = true) ∧
      (decimal (showInt n ++ ascii "000") : Int) = n * 1000 := by
  obtain ⟨k, rfl⟩ := Int.eq_ofNat_of_zero_le h
  have hzeros : ascii "000" = [48, 48, 48] := by decide
  rw [showInt_natCast, hzeros]
  constructor
  · intro c hc
    rcases List.mem_append.mp hc with hc | hc
    · exact isDigit_of_mem_showDecimal hc
    · rw [List.eq_of_mem_replicate (n := 3) (a := 48) hc]
      decide
  · rw [show showDecimal k ++ [48, 48, 48] =
      ((showDecimal k ++ [48]) ++ [48]) ++ [48] from by simp]
    simp only [decimal_append_digit, decimal_showDecimal]
    have h48 : (48 : UInt8).toNat = 48 := rfl
    rw [h48]
    push_cast
    ring

theorem showInt_spec {n : Int} (h : 0 ≤ n) :
    (∀ c ∈ showInt n, isDigit c = true) ∧ (decimal (showInt n) : Int) = n ∧
      showInt n ≠ [] := by
  obtain ⟨k, rfl⟩ := Int.eq_ofNat_of_zero_le h
  rw [showInt_natCast, decimal_showDecimal]
  exact ⟨fun c => isDigit_of_mem_showDecimal, rfl, showDecimal_ne_nil k⟩

/-- The texts between the numbers of an entry. -/
def mids : List Bytes := [ascii "=", ascii "_hyst=", ascii "_speed="]

theorem mids_spec : ∀ mid ∈ mids, (∀ c ∈ mid.head?, isDigit c = false) ∧
    mid ≠ [] ∧ mid.length ≤ 7 ∧ (∀ c ∈ mid, c ≠ chr '#' ∧ c ≠ newline) ∧
    ∀ other ∈ mids, other ≠ mid → ¬other.take mid.length <+: mid := by
  decide +kernel

/-- An entry has the numbers it was written from under its own text, and is
not taken under another one. -/
theorem scanFan_line {mid other value : Bytes} (hmid : mid ∈ mids)
    (hother : other ∈ mids) (hdigits : ∀ c ∈ value, isDigit c = true)
    (hne : value ≠ []) (hsmall : decimal value < 2 ^ 63) (i : Fin 4) :
    scanFan other (fanLine i mid value) =
      if other = mid then some ((i.val : Int), (decimal value : Int)) else none := by
  obtain ⟨hhead, hmidne, -, -, hapart⟩ := mids_spec mid hmid
  have hkey : fanKey <+: fanLine i mid value := by
    rw [fanLine, List.append_assoc, List.append_assoc]
    exact List.prefix_append _ _
  have hdrop : (fanLine i mid value).drop fanKey.length =
      showDecimal i.val ++ (mid ++ value) := by
    rw [fanLine, List.append_assoc, List.append_assoc, List.drop_left]
  have hindex : scanLong (showDecimal i.val ++ (mid ++ value)) =
      some ((i.val : Int), mid ++ value) := by
    rw [scanLong_digits (fun c => isDigit_of_mem_showDecimal)
      (showDecimal_ne_nil _), decimal_showDecimal]
    · intro c hc
      rw [List.head?_append_of_ne_nil _ hmidne] at hc
      exact hhead c hc
    · rw [decimal_showDecimal]
      omega
  have hvalue : scanLong value = some ((decimal value : Int), []) := by
    have hscan : scanLong (value ++ []) = some ((decimal value : Int), []) :=
      scanLong_digits hdigits hne (by simp) hsmall
    rwa [List.append_nil] at hscan
  have hwrap : toInt32 (i.val : Int) = i.val := by
    rw [toInt32]
    omega
  rw [scanFan, if_pos hkey, hdrop, hindex]
  dsimp only
  split
  · next hprefix =>
      have hsame : other = mid := by
        by_contra hdiff
        apply hapart other hother hdiff
        obtain ⟨t, ht⟩ := hprefix
        have htake : other.take mid.length <+: (mid ++ value).take mid.length := by
          rw [← ht]
          exact (List.prefix_append _ _).take _
        rwa [List.take_left] at htake
      subst hsame
      rw [if_pos rfl, List.drop_left, hvalue, hwrap]
  · next hprefix =>
      rw [if_neg]
      rintro rfl
      exact hprefix (List.prefix_append _ _)

theorem fanField_line {mid other value : Bytes} (hmid : mid ∈ mids)
    (hother : other ∈ mids) (hdigits : ∀ c ∈ value, isDigit c = true)
    (hne : value ≠ []) {v low high : Int} (hv : (decimal value : Int) = v)
    (hlow : low ≤ v) (hhigh : v ≤ high) (hsmall : v < 2 ^ 63) (i : Fin 4) :
    fanField other low high (fanLine i mid value) =
      if other = mid then some (i, v) else none := by
  have hscan := scanFan_line hmid hother hdigits hne (by omega) i
  rw [fanField, hscan]
  by_cases hsame : other = mid
  · rw [if_pos hsame, if_pos hsame]
    dsimp only
    rw [dif_pos (by omega), if_pos (by omega), hv]
    rfl
  · rw [if_neg hsame, if_neg hsame]

/-! ## Entries -/

theorem length_showInt_le_three {n : Int} (hlow : 0 ≤ n) (hhigh : n ≤ 255) :
    (showInt n).length ≤ 3 := by
  obtain ⟨k, rfl⟩ := Int.eq_ofNat_of_zero_le hlow
  rw [showInt_natCast]
  exact length_showDecimal_le (by decide) (by omega)

theorem fanLine_spec {mid value : Bytes} (hmid : mid ∈ mids)
    (hvalue : value.length ≤ 6) (i : Fin 4) :
    (fanLine i mid value).length < entrySize ∧
      fanLine i mid value ≠ ascii "[all]" := by
  have hkey : fanKey.length = 16 := by decide
  have hsize : entrySize = 96 := rfl
  have hlen := (mids_spec mid hmid).2.2.1
  have hindex : (showDecimal i.val).length ≤ 1 :=
    length_showDecimal_le (by decide) (by omega)
  constructor
  · simp only [fanLine, List.length_append]
    omega
  · intro heq
    have hlength := congrArg List.length heq
    have hall : (ascii "[all]").length = 5 := rfl
    simp only [fanLine, List.length_append] at hlength
    omega

/-- The bounds of what a request may ask for. -/
structure Requested (s : FanSettings) : Prop where
  temperatures : ∀ i, 40 ≤ s.temperatures i ∧ s.temperatures i ≤ 80
  speeds : ∀ i, 1 ≤ s.speeds i ∧ s.speeds i ≤ 255
  hysteresis : 1 ≤ s.hysteresis ∧ s.hysteresis ≤ 15
  increasing : ∀ i : Fin 4, 0 < i.val →
    s.temperatures (previous i) < s.temperatures i ∧
    s.speeds (previous i) < s.speeds i ∧
    s.hysteresis < s.temperatures i - s.temperatures (previous i)

variable {s : FanSettings}

def temperatureLine (s : FanSettings) (i : Fin 4) : Bytes :=
  fanLine i (ascii "=") (showInt (s.temperatures i) ++ ascii "000")

def hysteresisLine (s : FanSettings) (i : Fin 4) : Bytes :=
  fanLine i (ascii "_hyst=") (showInt s.hysteresis ++ ascii "000")

def speedLine (s : FanSettings) (i : Fin 4) : Bytes :=
  fanLine i (ascii "_speed=") (showInt (s.speeds i))

theorem readFanLine_temperature (hs : Requested s) (scan : FanScan) (i : Fin 4) :
    readFanLine scan (temperatureLine s i) =
      some { scan with
        temperatures := Function.update scan.temperatures i
          (some (s.temperatures i)) } := by
  obtain ⟨hlow, hhigh⟩ := hs.temperatures i
  obtain ⟨hdigits, hvalue⟩ := thousand_spec (by omega : 0 ≤ s.temperatures i)
  have hlen := length_showInt_le_three (by omega : 0 ≤ s.temperatures i) (by omega)
  have hzeros : (ascii "000").length = 3 := rfl
  obtain ⟨hshort, hname⟩ : (temperatureLine s i).length < entrySize ∧
      temperatureLine s i ≠ ascii "[all]" :=
    fanLine_spec (by simp [mids]) (by rw [List.length_append]; omega) i
  have hfield : fanField (ascii "=") 35000 80000 (temperatureLine s i) =
      some (i, s.temperatures i * 1000) :=
    (fanField_line (by simp [mids]) (by simp [mids]) hdigits (by simp [ascii])
      hvalue (by omega) (by omega) (by omega) i).trans (if_pos rfl)
  rw [readFanLine, if_neg (by omega), if_neg hname, hfield]
  dsimp only
  rw [Int.mul_tdiv_cancel _ (by decide)]

theorem readFanLine_hysteresis (hs : Requested s) (scan : FanScan) (i : Fin 4) :
    readFanLine scan (hysteresisLine s i) =
      some { scan with
        hysteresis := Function.update scan.hysteresis i (some s.hysteresis) } := by
  obtain ⟨hlow, hhigh⟩ := hs.hysteresis
  obtain ⟨hdigits, hvalue⟩ := thousand_spec (by omega : 0 ≤ s.hysteresis)
  have hlen := length_showInt_le_three (by omega : 0 ≤ s.hysteresis) (by omega)
  have hzeros : (ascii "000").length = 3 := rfl
  obtain ⟨hshort, hname⟩ : (hysteresisLine s i).length < entrySize ∧
      hysteresisLine s i ≠ ascii "[all]" :=
    fanLine_spec (by simp [mids]) (by rw [List.length_append]; omega) i
  have hscan : scanFan (ascii "=") (hysteresisLine s i) = none :=
    (scanFan_line (by simp [mids]) (by simp [mids]) hdigits (by simp [ascii])
      (by omega) i).trans (if_neg (by decide))
  have hother : fanField (ascii "=") 35000 80000 (hysteresisLine s i) = none := by
    rw [fanField, hscan]
  have hfield : fanField (ascii "_hyst=") 1000 15000 (hysteresisLine s i) =
      some (i, s.hysteresis * 1000) :=
    (fanField_line (by simp [mids]) (by simp [mids]) hdigits (by simp [ascii])
      hvalue (by omega) (by omega) (by omega) i).trans (if_pos rfl)
  rw [readFanLine, if_neg (by omega), if_neg hname, hother, hfield]
  dsimp only
  rw [Int.mul_tdiv_cancel _ (by decide)]

theorem readFanLine_speed (hs : Requested s) (scan : FanScan) (i : Fin 4) :
    readFanLine scan (speedLine s i) =
      some { scan with
        speeds := Function.update scan.speeds i (some (s.speeds i)) } := by
  obtain ⟨hlow, hhigh⟩ := hs.speeds i
  obtain ⟨hdigits, hvalue, hne⟩ := showInt_spec (by omega : 0 ≤ s.speeds i)
  have hlen := length_showInt_le_three (by omega : 0 ≤ s.speeds i) (by omega)
  obtain ⟨hshort, hname⟩ : (speedLine s i).length < entrySize ∧
      speedLine s i ≠ ascii "[all]" :=
    fanLine_spec (by simp [mids]) (by omega) i
  have hscan : ∀ mid ∈ mids, mid ≠ ascii "_speed=" →
      scanFan mid (speedLine s i) = none := by
    intro mid hmid hdiff
    exact (scanFan_line (by simp [mids]) hmid hdigits hne (by omega) i).trans
      (if_neg hdiff)
  have hother : fanField (ascii "=") 35000 80000 (speedLine s i) = none ∧
      fanField (ascii "_hyst=") 1000 15000 (speedLine s i) = none := by
    rw [fanField, fanField, hscan _ (by simp [mids]) (by decide),
      hscan _ (by simp [mids]) (by decide)]
    exact ⟨rfl, rfl⟩
  have hfield : fanField (ascii "_speed=") 1 255 (speedLine s i) =
      some (i, s.speeds i) :=
    (fanField_line (by simp [mids]) (by simp [mids]) hdigits hne hvalue (by omega)
      (by omega) (by omega) i).trans (if_pos rfl)
  rw [readFanLine, if_neg (by omega), if_neg hname, hother.1, hother.2, hfield]

/-! ## The block -/

def stepLines (s : FanSettings) (i : Fin 4) : List Bytes :=
  [temperatureLine s i, hysteresisLine s i, speedLine s i]

def blockLines (s : FanSettings) : List Bytes :=
  ascii "[all]" :: (List.finRange 4).flatMap (stepLines s)

theorem stepText_eq (s : FanSettings) (i : Fin 4) :
    stepText s i = (stepLines s i).flatMap (· ++ ascii "\n") := by
  simp [stepText, stepLines, temperatureLine, hysteresisLine, speedLine]

/-- One step of the curve is read from its lines. -/
theorem readFanLine_step (hs : Requested s) (scan : FanScan) (i : Fin 4) :
    (stepLines s i).foldlM readFanLine scan =
      some
        { temperatures := Function.update scan.temperatures i
            (some (s.temperatures i))
          hysteresis := Function.update scan.hysteresis i (some s.hysteresis)
          speeds := Function.update scan.speeds i (some (s.speeds i)) } := by
  rw [stepLines, List.foldlM_cons, readFanLine_temperature hs,
    Option.bind_eq_bind, Option.bind_some, List.foldlM_cons,
    readFanLine_hysteresis hs, Option.bind_eq_bind, Option.bind_some,
    List.foldlM_cons, readFanLine_speed hs]
  rfl

/-- What has been read behind some steps. -/
def scanned (s : FanSettings) (steps : List (Fin 4)) (scan : FanScan) : FanScan :=
  steps.foldl (fun scan i =>
    { temperatures := Function.update scan.temperatures i
        (some (s.temperatures i))
      hysteresis := Function.update scan.hysteresis i (some s.hysteresis)
      speeds := Function.update scan.speeds i (some (s.speeds i)) }) scan

theorem readFanLine_steps (hs : Requested s) (steps : List (Fin 4))
    (scan : FanScan) :
    (steps.flatMap (stepLines s)).foldlM readFanLine scan =
      some (scanned s steps scan) := by
  induction steps generalizing scan with
  | nil => rfl
  | cons i steps ih =>
      rw [List.flatMap_cons, List.foldlM_append, readFanLine_step hs,
        Option.bind_eq_bind, Option.bind_some, ih]
      rfl

theorem scanned_spec (s : FanSettings) (steps : List (Fin 4)) (scan : FanScan) :
    ∀ i ∈ steps, (scanned s steps scan).temperatures i = some (s.temperatures i) ∧
      (scanned s steps scan).hysteresis i = some s.hysteresis ∧
      (scanned s steps scan).speeds i = some (s.speeds i) := by
  induction steps using List.reverseRecOn with
  | nil =>
      intro i hi
      exact absurd hi List.not_mem_nil
  | append_singleton steps j ih =>
      intro i hi
      rw [scanned, List.foldl_concat]
      by_cases hij : i = j
      · subst hij
        simp
      · have hi' : i ∈ steps := by
          rcases List.mem_append.mp hi with hi | hi
          · exact hi
          · exact absurd (List.mem_singleton.mp hi) hij
        simp only [Function.update_of_ne hij]
        exact ih i hi'

theorem fanSettings_scanned (hs : Requested s) (henabled : s.enabled = true)
    (scan : FanScan) :
    fanSettings (scanned s (List.finRange 4) scan) = some s := by
  have hall := fun i =>
    scanned_spec s (List.finRange 4) scan i (List.mem_finRange i)
  rw [fanSettings, if_pos, (hall firstStep).2.1]
  · simp only [(hall _).1, (hall _).2.2, Option.getD_some]
    cases s
    cases henabled
    rfl
  · intro i
    obtain ⟨htemperature, hhysteresis, hspeed⟩ := hall i
    obtain ⟨htemperature', -, hspeed'⟩ := hall (previous i)
    refine ⟨by simp [htemperature], by simp [hspeed], by simp [hhysteresis], ?_⟩
    intro hi
    rw [htemperature, htemperature', hspeed, hspeed', hhysteresis, (hall firstStep).2.1]
    obtain ⟨hrise, hfaster, hgap⟩ := hs.increasing i hi
    exact ⟨hrise, hfaster, hgap, rfl⟩

/-- The lines of the block are read as what they were written from. -/
theorem foldlM_blockLines (hs : Requested s) (henabled : s.enabled = true) :
    ((blockLines s).foldlM readFanLine ⟨noFan, noFan, noFan⟩).bind fanSettings =
      some s := by
  have hall : readFanLine ⟨noFan, noFan, noFan⟩ (ascii "[all]") =
      some ⟨noFan, noFan, noFan⟩ := by
    have hlen : ¬(ascii "[all]").length ≥ entrySize := by decide
    rw [readFanLine, if_neg hlen, if_pos rfl]
  rw [blockLines, List.foldlM_cons, hall, Option.bind_eq_bind, Option.bind_some,
    readFanLine_steps hs, Option.bind_some, fanSettings_scanned hs henabled]

end Audiox.Http.FanConfig
