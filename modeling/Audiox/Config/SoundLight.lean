import Audiox.Config.Text
import Audiox.Support.TextFields

/-!
# Lights of single sounds

A sound can override the velocities with which its light is set.  The midi map
keeps the overrides in lines of three fields, and still reads the lines of four
fields of an older format.
-/

namespace Audiox.Config

open ByteCodec

def midiSfxPathMax : Nat := 160
def midiSoundLightsMax : Nat := 64

structure MidiSoundLight where
  sfxPath : Bytes
  hasMapped : Bool
  hasPlaying : Bool
  mappedVel : UInt8
  playingVel : UInt8
deriving DecidableEq

/-! ## Reading -/

/-- The key and the value of a line, without the blanks around them. -/
def splitKeyValue (line : Bytes) : Option (Bytes × Bytes) :=
  if chr '=' ∈ line then
    some (trim (line.takeWhile (· ≠ chr '=')),
      trim ((line.dropWhile (· ≠ chr '=')).drop 1))
  else none

/-- Reads a velocity up to the next comma, and goes on behind it; a field that
is no velocity is not passed. -/
def nextField (p : Bytes) : Option UInt8 × Bytes :=
  let field := p.takeWhile (· ≠ chr ',')
  let (v, rest) := strtol (trim field)
  if field.length ≥ 32 ∨ rest ≠ [] ∨ v < 0 ∨ v > 255 then (none, p)
  else (some v.toNat.toUInt8, (p.dropWhile (· ≠ chr ',')).drop 1)

def parseSoundLightLine (value : Bytes) (out : List MidiSoundLight) :
    Option (List MidiSoundLight) :=
  let buf := copyBounded 320 value
  let sfxPath := trim (buf.takeWhile (· ≠ chr ','))
  let (mVel, p) := nextField ((buf.dropWhile (· ≠ chr ',')).drop 1)
  let (second, p) := nextField p
  let (third, _) := nextField p
  if out.length ≥ midiSoundLightsMax ∨ chr ',' ∉ buf ∨ sfxPath = [] then none
  else
    match mVel, second with
    | some mVel, some second =>
        some (out ++ [{
          sfxPath := copyBounded midiSfxPathMax sfxPath
          hasMapped := true
          hasPlaying := true
          mappedVel := mVel
          playingVel := third.getD second }])
    | _, _ => none

/-- What a line of the midi map adds to the lights. -/
def readSoundLightLine (line : Bytes) (out : List MidiSoundLight) :
    Option (List MidiSoundLight) :=
  match splitKeyValue line with
  | some (key, value) =>
      if key = ascii "sound_light" then parseSoundLightLine value out
      else none
  | none => none

/-! ## Writing -/

def soundLightLine (light : MidiSoundLight) : Bytes :=
  ascii "sound_light=" ++ light.sfxPath ++ ascii "," ++
    showDecimal light.mappedVel.toNat ++ ascii "," ++
    showDecimal light.playingVel.toNat ++ ascii "\n"

/-- A velocity of a request. -/
def requestVelocity (text : Bytes) : Option UInt8 :=
  let (v, rest) := strtol text
  if rest = [] ∧ 0 ≤ v ∧ v ≤ 127 then some v.toNat.toUInt8 else none

/-- The light that a request leaves for a sound, from the light it had. -/
def setSoundLight (old : Option MidiSoundLight) (normalized : Bytes)
    (mapped playing : Option Bytes) : MidiSoundLight :=
  let light := old.getD ⟨normalized, false, false, 0, 0⟩
  let light :=
    match mapped.bind requestVelocity with
    | some v => { light with mappedVel := v, hasMapped := true }
    | none => light
  match playing.bind requestVelocity with
  | some v => { light with playingVel := v, hasPlaying := true }
  | none => light

/-! ## Fields -/

/-- A velocity with blanks around its digits. -/
def IsVelocity (text : Bytes) (v : UInt8) : Prop :=
  ∃ pre digits post, text = pre ++ digits ++ post ∧
    (∀ c ∈ pre, isBlank c = true) ∧ (∀ c ∈ post, isBlank c = true) ∧
    digits ≠ [] ∧ (∀ c ∈ digits, isDigit c = true) ∧
    decimal digits = v.toNat ∧ text.length < 32

theorem isVelocity_showDecimal (v : UInt8) :
    IsVelocity (showDecimal v.toNat) v := by
  refine ⟨[], showDecimal v.toNat, [], by simp, by simp, by simp,
    showDecimal_ne_nil _, fun c => isDigit_of_mem_showDecimal,
    decimal_showDecimal _, ?_⟩
  have hlt : v.toNat < 10 ^ 3 := lt_trans v.toNat_lt (by decide)
  have hle := length_showDecimal_le (by decide) hlt
  omega

theorem noBlankEnds_digits {digits : Bytes}
    (h : ∀ c ∈ digits, isDigit c = true) : NoBlankEnds digits := by
  constructor
  · intro c hc
    exact (isBlank_of_isDigit (h c (List.mem_of_head? hc))).1
  · intro c hc
    exact (isBlank_of_isDigit (h c (List.mem_of_getLast? hc))).2.1

theorem IsVelocity.strtol {text : Bytes} {v : UInt8} (h : IsVelocity text v) :
    Config.strtol (trim text) = ((v.toNat : Int), []) := by
  obtain ⟨pre, digits, post, rfl, hpre, hpost, hne, hdigits, hv, -⟩ := h
  have htrailing : ∀ c ∈ post, isTrailing c = true :=
    fun c hc => isTrailing_of_isBlank (hpost c hc)
  have hlt := v.toNat_lt
  rw [trim_padded hpre htrailing hne (noBlankEnds_digits hdigits),
    strtol_digits hne hdigits (by omega), hv]

theorem IsVelocity.short {text : Bytes} {v : UInt8} (h : IsVelocity text v) :
    text.length < 32 := by
  obtain ⟨_, _, _, _, _, _, _, _, _, hlen⟩ := h
  exact hlen

theorem IsVelocity.no_comma {text : Bytes} {v : UInt8}
    (h : IsVelocity text v) : chr ',' ∉ text := by
  obtain ⟨pre, digits, post, rfl, hpre, hpost, -, hdigits, -, -⟩ := h
  simp only [List.mem_append, not_or]
  refine ⟨⟨?_, ?_⟩, ?_⟩
  · intro hmem
    exact absurd (hpre _ hmem) (by decide)
  · intro hmem
    exact absurd (hdigits _ hmem) (by decide)
  · intro hmem
    exact absurd (hpost _ hmem) (by decide)

theorem takeWhile_all {c : UInt8} {s : Bytes} (h : c ∉ s) :
    s.takeWhile (· ≠ c) = s ∧ s.dropWhile (· ≠ c) = [] := by
  have hs : ∀ d ∈ s, decide (d ≠ c) = true := by
    intro d hd
    rw [decide_eq_true_eq]
    rintro rfl
    exact h hd
  exact ⟨List.takeWhile_eq_self_iff.mpr hs, List.dropWhile_eq_nil_iff.mpr hs⟩

theorem IsVelocity.next {text : Bytes} {v : UInt8} (h : IsVelocity text v)
    (rest : Bytes) :
    nextField (text ++ chr ',' :: rest) = (some v, rest) := by
  obtain ⟨htake, hdrop⟩ := TextFields.takeWhile_stop h.no_comma rest
  have hok : ¬(text.length ≥ 32 ∨ ([] : Bytes) ≠ [] ∨ (v.toNat : Int) < 0 ∨
      (v.toNat : Int) > 255) := by
    have hshort := h.short
    have hlt := v.toNat_lt
    simp only [ne_eq, not_true_eq_false, false_or]
    omega
  rw [nextField]
  simp only [htake, hdrop, h.strtol]
  rw [if_neg hok]
  simp

theorem IsVelocity.last {text : Bytes} {v : UInt8} (h : IsVelocity text v) :
    nextField text = (some v, []) := by
  obtain ⟨htake, hdrop⟩ := takeWhile_all h.no_comma
  have hok : ¬(text.length ≥ 32 ∨ ([] : Bytes) ≠ [] ∨ (v.toNat : Int) < 0 ∨
      (v.toNat : Int) > 255) := by
    have hshort := h.short
    have hlt := v.toNat_lt
    simp only [ne_eq, not_true_eq_false, false_or]
    omega
  rw [nextField]
  simp only [htake, hdrop, h.strtol]
  rw [if_neg hok]
  simp

/-- An absent field is read as a zero. -/
theorem nextField_nil : nextField [] = (some 0, []) := by
  decide

/-! ## Lines -/

/-- The value of a line under a key of the midi map. -/
theorem splitKeyValue_line {key value : Bytes} (hkey : chr '=' ∉ key) :
    splitKeyValue (key ++ chr '=' :: value) = some (trim key, trim value) := by
  obtain ⟨htake, hdrop⟩ := TextFields.takeWhile_stop hkey value
  rw [splitKeyValue, if_pos (by simp), htake, hdrop]
  rfl

theorem parseSoundLightLine_eq {path fields : Bytes}
    (out : List MidiSoundLight) (hout : out.length < midiSoundLightsMax)
    (hpath : chr ',' ∉ path)
    (hshort : path.length + 1 + fields.length < 320) :
    parseSoundLightLine (path ++ chr ',' :: fields) out =
      if trim path = [] then none
      else
        match (nextField fields).1, (nextField (nextField fields).2).1 with
        | some mVel, some second =>
            some (out ++ [⟨copyBounded midiSfxPathMax (trim path), true, true,
              mVel, (nextField (nextField (nextField fields).2).2).1.getD
                second⟩])
        | _, _ => none := by
  have hbuf : copyBounded 320 (path ++ chr ',' :: fields) =
      path ++ chr ',' :: fields := by
    apply copyBounded_eq_self
    rw [List.length_append, List.length_cons]
    omega
  obtain ⟨htake, hdrop⟩ := TextFields.takeWhile_stop hpath fields
  have hmem : chr ',' ∈ path ++ chr ',' :: fields := by simp
  rw [parseSoundLightLine]
  simp only [hbuf, htake, hdrop, List.drop_one, List.tail_cons, hmem,
    not_true_eq_false, false_or, ge_iff_le, Nat.not_le.mpr hout]

/-- The fields behind the name, up to the last one. -/
theorem trim_value (path init : Bytes) {text : Bytes} {v : UInt8}
    (h : IsVelocity text v) :
    ∃ text', IsVelocity text' v ∧
      trim (path ++ chr ',' :: (init ++ text ++ ascii "\n")) =
        trimLeft path ++ chr ',' :: (init ++ text') := by
  obtain ⟨pre, digits, post, rfl, hpre, hpost, hne, hdigits, hv, hshort⟩ := h
  have hlen : (pre ++ digits).length < 32 := by
    rw [List.length_append] at hshort
    omega
  refine ⟨pre ++ digits, ⟨pre, digits, [], by simp, hpre, by simp, hne,
    hdigits, hv, hlen⟩, ?_⟩
  have htrailing : ∀ c ∈ post ++ ascii "\n", isTrailing c = true := by
    intro c hc
    rcases List.mem_append.mp hc with hc | hc
    · exact isTrailing_of_isBlank (hpost c hc)
    · rw [show ascii "\n" = [chr '\n'] by rfl, List.mem_singleton] at hc
      rw [hc]
      decide
  have hsplit : trimLeft path ++ chr ',' ::
      (init ++ (pre ++ digits ++ post) ++ ascii "\n") =
      ((trimLeft path ++ chr ',' :: (init ++ pre)) ++ digits) ++
        (post ++ ascii "\n") := by
    simp
  rw [trim, trimLeft_append_stop (by decide), hsplit,
    trimRight_append_trailing htrailing,
    trimRight_append_of_last hne (noBlankEnds_digits hdigits).2]
  simp

theorem readSoundLightLine_eq {path init text : Bytes} {v : UInt8}
    (out : List MidiSoundLight) (hout : out.length < midiSoundLightsMax)
    (hpath : chr ',' ∉ path) (hshort : path.length + init.length < 280)
    (htext : IsVelocity text v) :
    ∃ text', IsVelocity text' v ∧
      readSoundLightLine (ascii "sound_light=" ++
        (path ++ chr ',' :: (init ++ text ++ ascii "\n"))) out =
      if trim path = [] then none
      else
        match (nextField (init ++ text')).1,
            (nextField (nextField (init ++ text')).2).1 with
        | some mVel, some second =>
            some (out ++ [⟨copyBounded midiSfxPathMax (trim path), true, true,
              mVel, (nextField (nextField
                (nextField (init ++ text')).2).2).1.getD second⟩])
        | _, _ => none := by
  obtain ⟨text', htext', htrim⟩ := trim_value path init htext
  refine ⟨text', htext', ?_⟩
  have hline : ascii "sound_light=" ++
      (path ++ chr ',' :: (init ++ text ++ ascii "\n")) =
      ascii "sound_light" ++ chr '=' ::
        (path ++ chr ',' :: (init ++ text ++ ascii "\n")) := by
    have hkey : ascii "sound_light=" = ascii "sound_light" ++ [chr '='] := by
      decide
    rw [hkey, List.append_assoc, List.singleton_append]
  have hcomma : chr ',' ∉ trimLeft path :=
    fun hmem => hpath ((List.dropWhile_suffix _).subset hmem)
  have hpathLen : (trimLeft path).length ≤ path.length :=
    (List.dropWhile_suffix _).length_le
  have hshort' :
      (trimLeft path).length + 1 + (init ++ text').length < 320 := by
    have hlen := htext'.short
    rw [List.length_append]
    omega
  have hparse := parseSoundLightLine_eq out hout hcomma hshort'
  have htrimPath : trim (trimLeft path) = trim path := by
    rw [trim, trimLeft_idem, trim]
  have hkey : trim (ascii "sound_light") = ascii "sound_light" := by decide
  rw [readSoundLightLine, hline, splitKeyValue_line (by decide), htrim]
  simp only [hkey, if_true]
  rw [hparse, htrimPath]

/-! ## Round trips -/

/-- A line of the older format, with the velocity of a held sound in
between. -/
def legacySoundLightLine (path mapped held playing : Bytes) : Bytes :=
  ascii "sound_light=" ++ (path ++ chr ',' ::
    (mapped ++ chr ',' :: (held ++ chr ',' :: []) ++ playing ++ ascii "\n"))

/-- What the written line of a light is read back as. -/
theorem read_soundLightLine {light : MidiSoundLight} (out : List MidiSoundLight)
    (hout : out.length < midiSoundLightsMax)
    (hfits : light.sfxPath.length < midiSfxPathMax)
    (hcomma : chr ',' ∉ light.sfxPath) :
    readSoundLightLine (soundLightLine light) out =
      if trim light.sfxPath = [] then none
      else some (out ++ [⟨trim light.sfxPath, true, true, light.mappedVel,
        0⟩]) := by
  have hmapped := isVelocity_showDecimal light.mappedVel
  have hplaying := isVelocity_showDecimal light.playingVel
  have hline : soundLightLine light = ascii "sound_light=" ++
      (light.sfxPath ++ chr ',' :: (showDecimal light.mappedVel.toNat ++
        [chr ','] ++ showDecimal light.playingVel.toNat ++ ascii "\n")) := by
    have hstop : ascii "," = [chr ','] := by decide
    simp only [soundLightLine, hstop, List.append_assoc, List.cons_append,
      List.nil_append]
  have hlen : light.sfxPath.length +
      (showDecimal light.mappedVel.toNat ++ [chr ',']).length < 280 := by
    have hshort := hmapped.short
    rw [List.length_append, List.length_singleton]
    simp only [midiSfxPathMax] at hfits
    omega
  obtain ⟨text, htext, hread⟩ :=
    readSoundLightLine_eq out hout hcomma hlen hplaying
  have hcopy : copyBounded midiSfxPathMax (trim light.sfxPath) =
      trim light.sfxPath :=
    copyBounded_eq_self ((length_trim_le _).trans_lt hfits)
  rw [hline, hread, hcopy, List.append_assoc, List.singleton_append,
    hmapped.next text, htext.last, nextField_nil]
  rfl

/-- A legacy line is read with the velocity of its last field. -/
theorem read_legacySoundLightLine {path mapped held playing : Bytes}
    {m h p : UInt8} (out : List MidiSoundLight)
    (hout : out.length < midiSoundLightsMax)
    (hfits : path.length < midiSfxPathMax) (hcomma : chr ',' ∉ path)
    (hname : trim path ≠ []) (hmapped : IsVelocity mapped m)
    (hheld : IsVelocity held h) (hplaying : IsVelocity playing p) :
    readSoundLightLine (legacySoundLightLine path mapped held playing) out =
      some (out ++ [⟨trim path, true, true, m, p⟩]) := by
  have hlen : path.length +
      (mapped ++ chr ',' :: (held ++ chr ',' :: [])).length < 280 := by
    have hshort := hmapped.short
    have hshort' := hheld.short
    simp only [List.length_append, List.length_cons, List.length_nil]
    simp only [midiSfxPathMax] at hfits
    omega
  obtain ⟨text, htext, hread⟩ :=
    readSoundLightLine_eq out hout hcomma hlen hplaying
  have hcopy : copyBounded midiSfxPathMax (trim path) = trim path :=
    copyBounded_eq_self ((length_trim_le _).trans_lt hfits)
  have hsplit : mapped ++ chr ',' :: (held ++ chr ',' :: []) ++ text =
      mapped ++ chr ',' :: (held ++ chr ',' :: text) := by
    simp
  rw [legacySoundLightLine, hread, hcopy, if_neg hname, hsplit,
    hmapped.next, hheld.next, htext.last]
  rfl

/-- A light survives its written line exactly if both overrides are set, the
velocity of the playing sound is zero, and its name has no blanks at its ends;
legacy lines are always read as they should be. -/
theorem soundLight_roundTrip_iff (light : MidiSoundLight)
    (out : List MidiSoundLight) (hout : out.length < midiSoundLightsMax)
    (hname : light.sfxPath ≠ [])
    (hfits : light.sfxPath.length < midiSfxPathMax)
    (hcomma : chr ',' ∉ light.sfxPath) :
    (readSoundLightLine (soundLightLine light) out = some (out ++ [light]) ↔
        light.hasMapped = true ∧ light.hasPlaying = true ∧
          light.playingVel = 0 ∧ NoBlankEnds light.sfxPath) ∧
      ∀ mapped held playing m h p, IsVelocity mapped m → IsVelocity held h →
        IsVelocity playing p → trim light.sfxPath ≠ [] →
        readSoundLightLine
            (legacySoundLightLine light.sfxPath mapped held playing) out =
          some (out ++ [⟨trim light.sfxPath, true, true, m, p⟩]) := by
  constructor
  · rw [read_soundLightLine out hout hfits hcomma, ← trim_eq_self_iff]
    cases light with
    | mk path hasMapped hasPlaying mappedVel playingVel =>
        constructor
        · intro h
          split at h
          · cases h
          · have hlast := List.append_cancel_left (Option.some.inj h)
            have hlight := (List.cons.inj hlast).1
            rw [MidiSoundLight.mk.injEq] at hlight
            obtain ⟨hpath, hm, hp, -, hzero⟩ := hlight
            exact ⟨hm.symm, hp.symm, hzero.symm, hpath⟩
        · rintro ⟨hm, hp, hzero, hpath⟩
          simp only at hm hp hzero hpath hname
          rw [hpath, if_neg hname, hm, hp, hzero]
  · intro mapped held playing m h p hmapped hheld hplaying htrim
    exact read_legacySoundLightLine out hout hfits hcomma htrim hmapped hheld
      hplaying

/-- The light of a sound for which only the mapped velocity was ever set. -/
def kickLight : MidiSoundLight :=
  setSoundLight none (ascii "kick.wav") (some (ascii "5")) none

theorem soundLight_roundTrip_iff_kick :
    readSoundLightLine
        (soundLightLine { kickLight with hasPlaying := true }) [] =
      some [{ kickLight with hasPlaying := true }] := by
  have hiff := soundLight_roundTrip_iff { kickLight with hasPlaying := true }
    [] (by decide) (by decide) (by decide) (by decide)
  apply hiff.1.mpr
  refine ⟨by decide, by decide, by decide, ?_⟩
  exact trim_eq_self_iff.mp (by decide)

/-- Overrides that were set to 5 and 64 come back as 5 and 0. -/
theorem playing_velocity_lost :
    let light := setSoundLight none (ascii "kick.wav") (some (ascii "5"))
      (some (ascii "64"))
    chr ',' ∉ light.sfxPath ∧ chr '\n' ∉ light.sfxPath ∧
      light.playingVel = 64 ∧ light.hasPlaying = true ∧
      readSoundLightLine (soundLightLine light) [] =
        some [{ light with playingVel := 0 }] ∧
      readSoundLightLine (soundLightLine light) [] ≠ some [light] ∧
      kickLight.hasPlaying = false ∧
      readSoundLightLine (soundLightLine kickLight) [] ≠ some [kickLight] := by
  decide

end Audiox.Config
