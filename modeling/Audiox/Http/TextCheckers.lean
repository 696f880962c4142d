import Audiox.Config.EffectName
import Audiox.Http.Quoted
import Mathlib

/-!
# The two checkers of UTF-8

`quoted` tells sequences by the ranges of their bytes, `midiEffectNameValid`
by the numbers that they decode to.  Both agree with the one way in which a
byte string is read from left to right.
-/

namespace Audiox

open ByteCodec

/-- A text is read in one way; its literal means the text with the bytes that
belong to no sequence replaced; and a name is valid exactly if it is short,
nothing in it is replaced and none of its characters is a control character. -/
theorem quoted_midiEffectNameValid_agree :
    (∀ text : Bytes, ∃! scan, Utf8.Scan text scan) ∧
    (∀ (text : Bytes) (scan : List (Option Char)), Utf8.Scan text scan →
      ∃ literal, Http.quoted text = some (Utf8.bytes literal) ∧
        JsonString.decode literal =
          some (Utf8.replaced (Char.ofNat 0xfffd) scan)) ∧
    ∀ (name behind : Bytes) (scan : List (Option Char)), 0 ∉ name →
      Utf8.Scan name scan →
      ∃ valid, Config.midiEffectNameValid (some (name ++ 0 :: behind)) =
          some valid ∧
        (valid = true ↔ name.length < 64 ∧ none ∉ scan ∧
          ∀ c, some c ∈ scan →
            ¬c.toNat ≤ 31 ∧ ¬(127 ≤ c.toNat ∧ c.toNat ≤ 159)) := by
  refine ⟨?_, ?_, ?_⟩
  · intro text
    obtain ⟨scan, hscan⟩ := Utf8.exists_scan text
    exact ⟨scan, hscan, fun other hother => hother.unique hscan⟩
  · intro text scan hscan
    obtain ⟨literal, scan', hquoted, hscan', hdecode⟩ :=
      Http.quoted_spec text
    rw [hscan'.unique hscan] at hdecode
    exact ⟨literal, hquoted, hdecode⟩
  · intro name behind scan hname hscan
    obtain ⟨valid, scan', hvalid, hscan', hiff⟩ :=
      Config.midiEffectNameValid_spec hname behind
    obtain rfl := hscan'.unique hscan
    refine ⟨valid, hvalid, ?_⟩
    rw [hiff, and_congr_right_iff]
    intro _
    constructor
    · intro hall
      constructor
      · exact fun h => Config.not_allowed_none (hall none h)
      · intro c hc
        obtain ⟨d, hd, hlow, hhigh⟩ := hall _ hc
        obtain rfl := Option.some.inj hd
        exact ⟨hlow, hhigh⟩
    · rintro ⟨hnone, hall⟩ entry hentry
      cases entry with
      | none => exact absurd hentry hnone
      | some c => exact ⟨c, rfl, hall c hentry⟩

theorem quoted_midiEffectNameValid_agree_two :
    ∃ valid, Config.midiEffectNameValid
        (some ([0x61, 0xc3, 0xa9] ++ [0])) = some valid ∧
      (valid = true ↔ ([0x61, 0xc3, 0xa9] : Bytes).length < 64 ∧
        none ∉ [some 'a', some 'é'] ∧
        ∀ c, some c ∈ [some 'a', some 'é'] →
          ¬c.toNat ≤ 31 ∧ ¬(127 ≤ c.toNat ∧ c.toNat ≤ 159)) :=
  quoted_midiEffectNameValid_agree.2.2 _ [] _ (by decide)
    ((Utf8.Scan.nil.char 'é').char 'a')

end Audiox
