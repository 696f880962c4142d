import Audiox.Scenes.SceneFile
import Audiox.Support.TextFields
import Mathlib

/-!
# Reading a scene back

The text that is written for an accepted scene is read back as the same scene
exactly if it is not too long for the reader, no parameter has a space in its
name and the unused numbers of the effects are one.
-/

namespace Audiox.Scenes

open ByteCodec Config Checks

variable {F : Type}

/-! ## Hexadecimal texts -/

/-- What the two digits of a byte are, for every byte. -/
theorem hexDigits_spec (c : UInt8) :
    digitValue (hexDigit (c >>> 4)) = some (c >>> 4) ∧
      digitValue (hexDigit (c &&& 15)) = some (c &&& 15) ∧
      ((c >>> 4) <<< 4) ||| (c &&& 15) = c ∧
      (c >>> 4 = 0 ∧ c &&& 15 = 0 → c = 0) ∧
      (32 : UInt8) < hexDigit (c >>> 4) ∧
      (32 : UInt8) < hexDigit (c &&& 15) := by
  have hall : ∀ n < 256, ∀ d : UInt8, d = UInt8.ofNat n →
      digitValue (hexDigit (d >>> 4)) = some (d >>> 4) ∧
      digitValue (hexDigit (d &&& 15)) = some (d &&& 15) ∧
      ((d >>> 4) <<< 4) ||| (d &&& 15) = d ∧
      (d >>> 4 = 0 ∧ d &&& 15 = 0 → d = 0) ∧
      (32 : UInt8) < hexDigit (d >>> 4) ∧
      (32 : UInt8) < hexDigit (d &&& 15) := by
    simp only [forall_eq]
    decide +kernel
  exact hall c.toNat c.toNat_lt c UInt8.ofNat_toNat.symm

theorem encode_cons (c : UInt8) (text : Bytes) :
    encode (c :: text) =
      hexDigit (c >>> 4) :: hexDigit (c &&& 15) :: encode text := rfl

theorem length_encode (text : Bytes) :
    (encode text).length = 2 * text.length := by
  induction text with
  | nil => rfl
  | cons c text ih =>
      rw [encode_cons, List.length_cons, List.length_cons, ih,
        List.length_cons]
      omega

theorem decodePairs_encode {text : Bytes} (h : 0 ∉ text) :
    decodePairs (encode text) = some text := by
  induction text with
  | nil => rfl
  | cons c text ih =>
      rw [List.mem_cons, not_or] at h
      obtain ⟨hhigh, hlow, hjoin, hzero, -⟩ := hexDigits_spec c
      have hne : ¬(c >>> 4 = 0 ∧ c &&& 15 = 0) :=
        fun hboth => h.1 (hzero hboth).symm
      rw [encode_cons, decodePairs, hhigh, hlow]
      simp only [if_neg hne, ih h.2, Option.map_some, hjoin]

theorem decode_encode {text : Bytes} (h : 0 ∉ text) (hlen : text.length ≤ 256) :
    decode (encode text) = some text := by
  rw [decode, length_encode, if_neg, decodePairs_encode h]
  omega

/-- A byte string that an input stream extracts as a whole. -/
def IsWord (word : Bytes) : Prop :=
  word ≠ [] ∧ ∀ c ∈ word, 32 < c

theorem isWord_of_all {word : Bytes}
    (h : (word ≠ [] && word.all fun c => 32 < c) = true) : IsWord word := by
  simpa [IsWord] using h

theorem lt_of_mem_encode {text : Bytes} {c : UInt8} (hc : c ∈ encode text) :
    32 < c := by
  obtain ⟨d, -, hd⟩ := List.mem_flatMap.mp hc
  obtain ⟨-, -, -, -, hhigh, hlow⟩ := hexDigits_spec d
  rw [List.mem_cons, List.mem_singleton] at hd
  rcases hd with rfl | rfl
  · exact hhigh
  · exact hlow

theorem isWord_encode {text : Bytes} (h : text ≠ []) : IsWord (encode text) := by
  constructor
  · intro hnil
    have hlen := congrArg List.length hnil
    rw [length_encode, List.length_nil] at hlen
    have hpos := List.length_pos_of_ne_nil h
    omega
  · intro c hc
    exact lt_of_mem_encode hc

/-- No encoded name is the stroke. -/
theorem encode_ne_stroke (text : Bytes) : encode text ≠ ascii "-" := by
  intro h
  have hlen := congrArg List.length h
  rw [length_encode, show (ascii "-").length = 1 by decide] at hlen
  omega

/-! ## Words and numbers -/

theorem isSpace_of_lt {c : UInt8} (h : 32 < c) : Config.isSpace c = false := by
  simp only [UInt8.lt_iff_toNat_lt, UInt8.reduceToNat] at h
  have hrange : ¬(9 ≤ c ∧ c ≤ 13) := by
    simp only [UInt8.le_iff_toNat_le, UInt8.reduceToNat]
    omega
  have hblank : c ≠ 32 := by
    rintro rfl
    simp at h
  simp [Config.isSpace, hblank]
  simpa using hrange

/-- What follows a word. -/
def behind (rest : List Bytes) : Bytes :=
  match rest with
  | [] => []
  | _ => chr ' ' :: words rest

theorem words_cons (word : Bytes) (rest : List Bytes) :
    words (word :: rest) = word ++ behind rest := by
  cases rest with
  | nil => rw [words, behind, List.append_nil]
  | cons next rest => rfl

theorem behind_cons (word : Bytes) (rest : List Bytes) :
    behind (word :: rest) = chr ' ' :: (word ++ behind rest) := by
  rw [behind, words_cons]
  exact List.cons_ne_nil _ _

theorem behind_space {rest : List Bytes} {c : UInt8}
    (h : (behind rest).head? = some c) : Config.isSpace c = true := by
  cases rest with
  | nil => cases h
  | cons word rest =>
      rw [behind_cons, List.head?_cons, Option.some_inj] at h
      rw [← h]
      decide

/-- The scan of a word stops behind it. -/
theorem nextWord_append {word : Bytes} (hword : IsWord word)
    (rest : List Bytes) :
    nextWord (word ++ behind rest) = some (word, behind rest) := by
  obtain ⟨c, tail, rfl⟩ := List.exists_cons_of_ne_nil hword.1
  have hnot : ∀ d ∈ c :: tail, (!Config.isSpace d) = true := by
    intro d hd
    rw [isSpace_of_lt (hword.2 d hd)]
    rfl
  have hstart : ((c :: tail) ++ behind rest).dropWhile Config.isSpace =
      (c :: tail) ++ behind rest := by
    rw [List.cons_append, List.dropWhile_cons_of_neg]
    rw [isSpace_of_lt (hword.2 c (by simp))]
    exact Bool.false_ne_true
  have hstop : ∀ d ∈ (behind rest).head?, (!Config.isSpace d) = false := by
    intro d hd
    rw [behind_space hd]
    rfl
  rw [nextWord, hstart]
  simp only [if_neg (List.append_ne_nil_of_left_ne_nil hword.1 _)]
  rw [TextFields.takeWhile_word hnot hstop, TextFields.dropWhile_word hnot hstop]

theorem nextWord_blank (s : Bytes) : nextWord (chr ' ' :: s) = nextWord s := by
  rw [nextWord, nextWord, List.dropWhile_cons_of_pos (by decide)]

theorem nextWord_behind {word : Bytes} (hword : IsWord word)
    (rest : List Bytes) :
    nextWord (behind (word :: rest)) = some (word, behind rest) := by
  rw [behind_cons, nextWord_blank, nextWord_append hword]

theorem nextName_behind {name : Bytes} (hne : name ≠ []) (hzero : 0 ∉ name)
    (hlen : name.length ≤ 256) (rest : List Bytes) :
    nextName (behind (encode name :: rest)) = some (name, behind rest) := by
  rw [nextName, nextWord_behind (isWord_encode hne)]
  simp [decode_encode hzero hlen]

/-- The scan of digits stops behind them. -/
theorem digits_append {digits : Bytes}
    (hdigits : ∀ c ∈ digits, isDigit c = true) (rest : List Bytes) :
    (digits ++ behind rest).takeWhile isDigit = digits ∧
      (digits ++ behind rest).dropWhile isDigit = behind rest := by
  have hstop : ∀ d ∈ (behind rest).head?, isDigit d = false := by
    intro d hd
    refine Bool.eq_false_iff.mpr fun hdigit => ?_
    have hspace := behind_space hd
    rw [(isBlank_of_isDigit hdigit).2.2] at hspace
    exact Bool.false_ne_true hspace
  exact ⟨TextFields.takeWhile_word hdigits hstop,
    TextFields.dropWhile_word hdigits hstop⟩

theorem takeSign_digits {digits : Bytes} (hne : digits ≠ [])
    (hdigits : ∀ c ∈ digits, isDigit c = true) (s : Bytes) :
    takeSign (digits ++ s) = (false, digits ++ s) := by
  obtain ⟨c, tail, rfl⟩ := List.exists_cons_of_ne_nil hne
  have hc := hdigits c (by simp)
  rw [List.cons_append, takeSign, if_neg (isDigit_other hc (.inl (by decide))),
    if_neg (isDigit_other hc (.inl (by decide)))]

theorem isWord_showDecimal (n : Nat) : IsWord (showDecimal n) := by
  constructor
  · exact showDecimal_ne_nil n
  · intro c hc
    have hbounds := isDigit_bounds (isDigit_of_mem_showDecimal hc)
    simp only [UInt8.lt_iff_toNat_lt, UInt8.reduceToNat]
    omega

theorem isWord_showInt (n : Int) : IsWord (showInt n) := by
  have hdecimal := isWord_showDecimal n.natAbs
  rw [showInt]
  split
  · constructor
    · exact List.cons_ne_nil _ _
    · intro c hc
      rcases List.mem_cons.mp hc with rfl | hc
      · decide
      · exact hdecimal.2 c hc
  · exact hdecimal

theorem nextInt_behind {n : Int} (hlow : -2 ^ 31 ≤ n) (hhigh : n < 2 ^ 31)
    (rest : List Bytes) :
    nextInt (behind (showInt n :: rest)) = some (n, behind rest) := by
  have hdigits : ∀ c ∈ showDecimal n.natAbs, isDigit c = true :=
    fun c => isDigit_of_mem_showDecimal
  have hne := showDecimal_ne_nil n.natAbs
  obtain ⟨htake, hdrop⟩ := digits_append hdigits rest
  have hstart : (behind (showInt n :: rest)).dropWhile Config.isSpace =
      showInt n ++ behind rest := by
    have hword := isWord_showInt n
    obtain ⟨c, tail, hcons⟩ := List.exists_cons_of_ne_nil hword.1
    rw [behind_cons, List.dropWhile_cons_of_pos (by decide), hcons,
      List.cons_append, List.dropWhile_cons_of_neg]
    rw [isSpace_of_lt (hword.2 c (by rw [hcons]; simp))]
    exact Bool.false_ne_true
  rw [nextInt, hstart, showInt]
  by_cases hneg : n < 0
  · have hsign : takeSign (chr '-' :: showDecimal n.natAbs ++ behind rest) =
        (true, showDecimal n.natAbs ++ behind rest) := rfl
    rw [if_pos hneg, hsign]
    simp only [htake, hdrop, decimal_showDecimal, hne, if_true, false_or]
    rw [if_neg (by omega), Option.some_inj, Prod.mk.injEq]
    exact ⟨by omega, rfl⟩
  · rw [if_neg hneg, takeSign_digits hne hdigits]
    simp only [htake, hdrop, decimal_showDecimal, hne, Bool.false_eq_true,
      if_false, false_or]
    rw [if_neg (by omega), Option.some_inj, Prod.mk.injEq]
    exact ⟨by omega, rfl⟩

theorem showInt_natCast (n : Nat) : showInt n = showDecimal n := by
  rw [showInt, if_neg (by omega), Int.natAbs_natCast]

/-! ## What is accepted -/

theorem isWord_of_textValid {text : Bytes} {max : Nat}
    (h : textValid text max false = true) (hspace : chr ' ' ∉ text) :
    IsWord text := by
  obtain ⟨hne, -, hchars⟩ := textValid_iff.mp h
  constructor
  · simpa using hne
  · intro c hc
    have hctrl := (hchars c hc).1
    have hblank : c ≠ 32 := by
      rintro rfl
      exact hspace hc
    have hnat : c.toNat ≠ 32 := by
      intro heq
      exact hblank (UInt8.toNat_inj.mp heq)
    simp only [UInt8.lt_iff_toNat_lt, UInt8.reduceToNat] at hctrl ⊢
    omega

theorem lt_of_lower {c : UInt8} (h : lower c = true) : 32 < c := by
  simp only [lower, Bool.and_eq_true, decide_eq_true_eq,
    UInt8.le_iff_toNat_le] at h
  simp only [UInt8.lt_iff_toNat_lt, UInt8.reduceToNat]
  have ha : (chr 'a').toNat = 97 := by decide
  omega

/-- The name of a type is a word that fits its field. -/
theorem isWord_type {type : Bytes}
    (h : validTypeName type ∨ type = (BuiltinType.ofText type).toText) :
    IsWord type ∧ type.length ≤ 23 := by
  rcases h with hplugin | hbuiltin
  · simp only [validTypeName, Bool.and_eq_true, decide_eq_true_eq] at hplugin
    obtain ⟨⟨⟨⟨hfront, hlow⟩, hhigh⟩, hfirst⟩, hrest⟩ := hplugin
    refine ⟨⟨?_, ?_⟩, by omega⟩
    · rintro rfl
      simp at hlow
    · intro c hc
      rw [← List.take_append_drop 7 type, List.mem_append, hfront,
        ← List.take_append_drop 1 (type.drop 7), List.mem_append,
        List.drop_drop] at hc
      rcases hc with hc | hc | hc
      · have hkey : IsWord (ascii "plugin_") := isWord_of_all (by decide)
        exact hkey.2 c hc
      · exact lt_of_lower (List.all_eq_true.mp hfirst c hc)
      · have hchar := List.all_eq_true.mp hrest c hc
        simp only [Bool.or_eq_true, decide_eq_true_eq] at hchar
        rcases hchar with (hletter | hdigit) | rfl
        · exact lt_of_lower hletter
        · have hbounds := isDigit_bounds hdigit
          simp only [UInt8.lt_iff_toNat_lt, UInt8.reduceToNat]
          omega
        · decide
  · rw [hbuiltin]
    have hbuiltins : ∀ builtin : BuiltinType,
        IsWord builtin.toText ∧ builtin.toText.length ≤ 23 := by
      intro builtin
      cases builtin <;> exact ⟨isWord_of_all (by decide), by decide⟩
    exact hbuiltins _

/-- The facts about an accepted scene on which its text rests. -/
structure Accepted (floats : Floats F) (scene : Scene F) : Prop where
  id : validId scene.id = true
  name : textValid scene.name 63 false = true
  binding : bindingValid scene.channel scene.note = true
  routes : ∀ route ∈ scene.routes, textValid route 255 false = true
  params : ∀ p ∈ scene.params, textValid p.effectId 63 false = true ∧
    textValid p.param 23 false = true ∧ floats.isFinite p.value = true
  volumes : ∀ v ∈ scene.volumes, textValid v.thingId 63 false = true ∧
    floats.isFinite v.gain = true
  effects : ∀ e ∈ scene.effects, textValid e.effectId 63 false = true ∧
    textValid e.name 63 true = true ∧ e.enabled ≤ 1 ∧ IsWord e.type ∧
    e.type.length ≤ 23

theorem accepted_of_validate {host : Host F} {scene : Scene F}
    {requireAvailable : Bool}
    (h : validate host scene requireAvailable = .ok ()) :
    Accepted host.floats scene := by
  simp only [validate, bind_eq_ok, failIf_eq_ok, exists_const, not_or, not_not]
    at h
  obtain ⟨⟨hid, hname⟩, hbinding, -, hroutes, ⟨⟩, hparams, ⟨⟩, hvolumes, ⟨⟩,
    heffects, -⟩ := h
  refine ⟨hid, hname, hbinding, List.all_eq_true.mp hroutes, ?_, ?_, ?_⟩
  · intro p hp
    obtain ⟨before, hcheck⟩ := eachAfter_mem hparams hp
    simp only [checkParam, bind_eq_ok, failIf_eq_ok, exists_const, not_or,
      not_not] at hcheck
    obtain ⟨⟨-, -, hid, hparam, hfinite⟩, -⟩ := hcheck
    exact ⟨hid, hparam, hfinite⟩
  · intro v hv
    obtain ⟨before, hcheck⟩ := eachAfter_mem hvolumes hv
    simp only [checkVolume, bind_eq_ok, failIf_eq_ok, exists_const, not_or,
      not_not] at hcheck
    obtain ⟨⟨-, hid, hfinite, -, -⟩, -⟩ := hcheck
    exact ⟨hid, hfinite⟩
  · intro e he
    obtain ⟨before, hcheck⟩ := eachAfter_mem heffects he
    simp only [checkEffect, bind_eq_ok, failIf_eq_ok, exists_const, not_or,
      not_not] at hcheck
    obtain ⟨⟨-, -, -, hid, hname, henabled⟩, ⟨htype, -⟩, -⟩ := hcheck
    have htype' : validTypeName e.type ∨
        e.type = (BuiltinType.ofText e.type).toText := by
      rw [not_and_or, not_not, Ne, not_not] at htype
      exact htype
    obtain ⟨hword, hlen⟩ := isWord_type htype'
    exact ⟨hid, hname, UInt8.not_lt.mp henabled, hword, hlen⟩

/-! ## Reading the lines -/

/-- What the text of a floating point number promises: it has no blanks, and
it is extracted as the same number. -/
structure Floats.RoundTrips (floats : Floats F) : Prop where
  printed : ∀ v, floats.isFinite v = true → ∀ c ∈ floats.print v, 32 < c
  extracted : ∀ v, floats.isFinite v = true →
    floats.extract (chr ' ' :: floats.print v) = some (v, [])

/-- What a scene needs beyond being accepted in order to be read back, its
length apart. -/
structure Plain (floats : Floats F) (scene : Scene F) : Prop where
  params : ∀ p ∈ scene.params, chr ' ' ∉ p.param
  effects : ∀ e ∈ scene.effects, e.gain = floats.literal 1 ∧
    e.drive = floats.literal 1 ∧ e.clip = floats.literal 1 ∧
    e.output = floats.literal 1

theorem zero_notMem_of_textValid {text : Bytes} {max : Nat} {empty : Bool}
    (h : textValid text max empty = true) : 0 ∉ text :=
  notMem_of_textValid h (by decide)

theorem ne_nil_of_textValid {text : Bytes} {max : Nat}
    (h : textValid text max false = true) : text ≠ [] := by
  simpa using (textValid_iff.mp h).1

theorem nextName_of_textValid {name : Bytes} {max : Nat}
    (h : textValid name max false = true) (hmax : max ≤ 256)
    (rest : List Bytes) :
    nextName (behind (encode name :: rest)) = some (name, behind rest) := by
  have hlen := (textValid_iff.mp h).2.1
  exact nextName_behind (ne_nil_of_textValid h) (zero_notMem_of_textValid h)
    (by omega) rest

theorem decode_of_textValid {name : Bytes} {max : Nat} {empty : Bool}
    (h : textValid name max empty = true) (hmax : max ≤ 256) :
    decode (encode name) = some name := by
  have hlen := (textValid_iff.mp h).2.1
  exact decode_encode (zero_notMem_of_textValid h) (by omega)

/-- A line is read by reading the fields behind its tag. -/
theorem readLine_words {floats : Floats F} {st st' : SceneReader F}
    {tag : Bytes} {fields : List Bytes} (htag : IsWord tag)
    (h : readFields floats st tag (behind fields) = .ok (st', [])) :
    readLine floats st (words (tag :: fields)) = .ok st' := by
  rw [words_cons, readLine, nextWord_append htag]
  simp only [h, ok_bind]
  rfl

section Lines

variable (floats : Floats F) (st : SceneReader F)

theorem readLine_name {name : Bytes} (h : textValid name 63 false = true)
    (hnamed : st.named = false) :
    readLine floats st (words [ascii "name", encode name]) =
      .ok { st with scene := { st.scene with name }, named := true } := by
  apply readLine_words (isWord_of_all (by decide))
  rw [readFields, if_pos rfl, readName, hnamed]
  simp only [Bool.false_eq_true, if_false]
  rw [nextName_of_textValid h (by decide)]
  rfl

theorem readLine_binding {channel note : Int}
    (h : bindingValid channel note = true) (hbound : st.bound = false) :
    readLine floats st
        (words [ascii "midi", showInt channel, showInt note]) =
      .ok { st with
        scene := { st.scene with channel, note }, bound := true } := by
  have hrange : (-1 ≤ channel ∧ channel ≤ 127) ∧ -1 ≤ note ∧ note ≤ 127 := by
    simp only [bindingValid, Bool.or_eq_true, Bool.and_eq_true,
      decide_eq_true_eq] at h
    omega
  apply readLine_words (isWord_of_all (by decide))
  rw [readFields, if_neg (by decide), if_pos rfl, readBinding, hbound]
  simp only [Bool.false_eq_true, if_false]
  rw [nextInt_behind (by omega) (by omega)]
  simp only [Option.bind_eq_bind, Option.bind_some]
  rw [nextInt_behind (by omega) (by omega)]
  rfl

theorem readLine_helper (helper : Bool) (hhelped : st.helped = false) :
    readLine floats st
        (words [ascii "helper", showDecimal (if helper then 1 else 0)]) =
      .ok { st with scene := { st.scene with helper }, helped := true } := by
  apply readLine_words (isWord_of_all (by decide))
  rw [readFields, if_neg (by decide), if_neg (by decide), if_pos rfl,
    readHelper, hhelped, ← showInt_natCast]
  simp only [Bool.false_eq_true, if_false]
  rw [nextInt_behind (by cases helper <;> decide) (by cases helper <;> decide)]
  cases helper <;> rfl

theorem readLine_route {route : Bytes}
    (h : textValid route 255 false = true) :
    readLine floats st (words [ascii "route", encode route]) =
      .ok { st with
        scene := { st.scene with routes := st.scene.routes ++ [route] } } := by
  apply readLine_words (isWord_of_all (by decide))
  rw [readFields, if_neg (by decide), if_neg (by decide), if_neg (by decide),
    if_pos rfl, readRoute, nextName_of_textValid h (by decide)]
  rfl

end Lines

section FloatLines

variable {floats : Floats F} (hfloats : floats.RoundTrips)
  (st : SceneReader F)

include hfloats

theorem extract_behind {v : F} (hv : floats.isFinite v = true) :
    floats.extract (behind [floats.print v]) = some (v, []) := by
  rw [behind_cons, behind, List.append_nil, hfloats.extracted v hv]

theorem readLine_volume {v : VolumeEntry F}
    (hid : textValid v.thingId 63 false = true)
    (hgain : floats.isFinite v.gain = true) :
    readLine floats st (volumeLine floats v) =
      .ok { st with
        scene := { st.scene with volumes := st.scene.volumes ++ [v] } } := by
  apply readLine_words (isWord_of_all (by decide))
  rw [readFields, if_neg (by decide), if_neg (by decide), if_neg (by decide),
    if_neg (by decide), if_pos rfl, readVolume,
    nextWord_behind (isWord_encode (ne_nil_of_textValid hid))]
  simp only [Option.bind_eq_bind, Option.bind_some]
  rw [extract_behind hfloats hgain]
  simp only [Option.bind_some]
  rw [decode_of_textValid hid (by decide)]
  simp only [Option.bind_some, hid, if_true]
  rfl

theorem readLine_param {p : MidiEffectParam F}
    (hid : textValid p.effectId 63 false = true)
    (hparam : textValid p.param 23 false = true)
    (hvalue : floats.isFinite p.value = true) (hspace : chr ' ' ∉ p.param) :
    readLine floats st (paramLine floats p) =
      .ok { st with
        scene := { st.scene with params := st.scene.params ++ [p] } } := by
  apply readLine_words (isWord_of_all (by decide))
  rw [readFields, if_neg (by decide), if_neg (by decide), if_neg (by decide),
    if_neg (by decide), if_neg (by decide), if_neg (by decide), if_pos rfl,
    readParam, nextWord_behind (isWord_encode (ne_nil_of_textValid hid))]
  simp only [Option.bind_eq_bind, Option.bind_some]
  rw [nextWord_behind (isWord_of_textValid hparam hspace)]
  simp only [Option.bind_some]
  rw [extract_behind hfloats hvalue]
  simp only [Option.bind_some]
  rw [decode_of_textValid hid (by decide)]
  simp only [Option.bind_some, hid, hparam, Bool.and_self, if_true]
  rfl

end FloatLines

theorem effectName_encode {name : Bytes}
    (h : textValid name 63 true = true) :
    IsWord (if name ≠ [] then encode name else ascii "-") ∧
      effectName (if name ≠ [] then encode name else ascii "-") =
        some name := by
  by_cases hname : name = []
  · rw [hname]
    exact ⟨isWord_of_all (by decide), by decide⟩
  · have hvalid : textValid name 63 false = true := by
      obtain ⟨-, hlen, hchars⟩ := textValid_iff.mp h
      exact textValid_iff.mpr ⟨.inr hname, hlen, hchars⟩
    rw [if_pos hname]
    constructor
    · exact isWord_encode hname
    · rw [effectName, if_neg (encode_ne_stroke name),
        decode_of_textValid h (by decide)]
      simp [hvalid]

theorem readLine_effect {floats : Floats F} (st : SceneReader F)
    {e : MidiEffectState F}
    (hid : textValid e.effectId 63 false = true)
    (hname : textValid e.name 63 true = true) (henabled : e.enabled ≤ 1)
    (htype : IsWord e.type) (hlen : e.type.length ≤ 23)
    (hones : e.gain = floats.literal 1 ∧ e.drive = floats.literal 1 ∧
      e.clip = floats.literal 1 ∧ e.output = floats.literal 1) :
    readLine floats st (effectLine e) =
      .ok { st with
        scene := { st.scene with effects := st.scene.effects ++ [e] } } := by
  have hle : e.enabled.toNat ≤ 1 := UInt8.le_iff_toNat_le.mp henabled
  obtain ⟨hword, heffect⟩ := effectName_encode hname
  apply readLine_words (isWord_of_all (by decide))
  rw [readFields, if_neg (by decide), if_neg (by decide), if_neg (by decide),
    if_neg (by decide), if_neg (by decide), if_pos rfl, readEffect,
    nextWord_behind (isWord_encode (ne_nil_of_textValid hid))]
  simp only [orFail, ok_bind]
  rw [nextWord_behind htype]
  simp only [ok_bind]
  rw [← showInt_natCast, nextInt_behind (by omega) (by omega)]
  simp only [ok_bind]
  rw [nextWord_behind hword]
  simp only [ok_bind]
  rw [decode_of_textValid hid (by decide), heffect]
  simp only [ok_bind]
  rw [failIf, if_neg, ok_bind]
  · obtain ⟨effectId, type, enabled, gain, drive, clip, output, name⟩ := e
    obtain ⟨rfl, rfl, rfl, rfl⟩ := hones
    simp only [Int.toNat_natCast, UInt8.ofNat_toNat, Nat.toUInt8_eq]
    rfl
  · simp only [hid, not_true_eq_false, false_or, not_or, not_and_or, not_not]
    omega

/-! ## The whole text -/

/-- A scene of which the lists have been read in part. -/
def readSoFar (scene : Scene F) (routes : List Bytes)
    (volumes : List (VolumeEntry F)) (effects : List (MidiEffectState F))
    (params : List (MidiEffectParam F)) : SceneReader F where
  scene := { scene with routes, volumes, effects, params }
  named := true
  bound := true
  helped := true

theorem foldlM_sceneLines {floats : Floats F} (hfloats : floats.RoundTrips)
    {scene : Scene F} (haccepted : Accepted floats scene)
    (hplain : Plain floats scene) :
    (sceneLines floats scene).tail.foldlM (readLine floats)
        { scene := { id := scene.id, name := [] } } =
      .ok { scene, named := true, bound := true, helped := true } := by
  have hroutes := foldlM_map_append
    (fun routes => readSoFar scene routes [] [] [])
    (fun before route hroute =>
      readLine_route floats (readSoFar scene before [] [] [])
        (haccepted.routes route hroute)) []
  have hvolumes := foldlM_map_append
    (fun volumes => readSoFar scene scene.routes volumes [] [])
    (fun before v hv =>
      readLine_volume hfloats (readSoFar scene scene.routes before [] [])
        (haccepted.volumes v hv).1 (haccepted.volumes v hv).2) []
  have heffects := foldlM_map_append
    (fun effects => readSoFar scene scene.routes scene.volumes effects [])
    (fun before e he => by
      obtain ⟨hid, hname, henabled, htype, hlen⟩ := haccepted.effects e he
      exact readLine_effect
        (readSoFar scene scene.routes scene.volumes before [])
        hid hname henabled htype hlen (hplain.effects e he)) []
  have hparams := foldlM_map_append
    (fun params =>
      readSoFar scene scene.routes scene.volumes scene.effects params)
    (fun before p hp => by
      obtain ⟨hid, hparam, hvalue⟩ := haccepted.params p hp
      exact readLine_param hfloats
        (readSoFar scene scene.routes scene.volumes scene.effects before)
        hid hparam hvalue (hplain.params p hp)) []
  rw [sceneLines]
  simp only [List.cons_append, List.nil_append, List.tail_cons,
    List.foldlM_cons, List.foldlM_append]
  rw [readLine_name _ _ haccepted.name rfl, ok_bind,
    readLine_binding _ _ haccepted.binding rfl, ok_bind,
    readLine_helper _ _ scene.helper rfl, ok_bind]
  simp only [readSoFar, List.nil_append] at hroutes hvolumes heffects hparams
  rw [hroutes, ok_bind, hvolumes, ok_bind, heffects, ok_bind, hparams]

/-- A text without control characters. -/
def Printable (text : Bytes) : Prop :=
  ∀ c ∈ text, 32 ≤ c

theorem IsWord.printable {word : Bytes} (h : IsWord word) : Printable word :=
  fun c hc => UInt8.le_of_lt (h.2 c hc)

theorem printable_encode (text : Bytes) : Printable (encode text) :=
  fun _ hc => UInt8.le_of_lt (lt_of_mem_encode hc)

theorem printable_words {fields : List Bytes}
    (h : ∀ field ∈ fields, Printable field) : Printable (words fields) := by
  induction fields with
  | nil =>
      intro c hc
      exact absurd hc List.not_mem_nil
  | cons field fields ih =>
      have hrest := ih fun other hother =>
        h other (List.mem_cons_of_mem _ hother)
      intro c hc
      rw [words_cons, List.mem_append] at hc
      rcases hc with hc | hc
      · exact h field (by simp) c hc
      · rcases fields with _ | ⟨next, fields⟩
        · exact absurd hc List.not_mem_nil
        · rcases List.mem_cons.mp hc with rfl | hc
          · decide
          · exact hrest c hc

/-- Every line is printable. -/
theorem printable_sceneLines {floats : Floats F} (hfloats : floats.RoundTrips)
    {scene : Scene F} (haccepted : Accepted floats scene) :
    ∀ line ∈ sceneLines floats scene, Printable line := by
  have htag : ∀ tag ∈ [ascii "name", ascii "midi", ascii "helper",
      ascii "route", ascii "volume", ascii "effect", ascii "param"],
      Printable tag := by
    intro tag htag
    have hall : ∀ tag ∈ [ascii "name", ascii "midi", ascii "helper",
        ascii "route", ascii "volume", ascii "effect", ascii "param"],
        (tag ≠ [] && tag.all fun c => 32 < c) = true := by decide
    exact (isWord_of_all (hall tag htag)).printable
  have hfloat : ∀ v, floats.isFinite v = true → Printable (floats.print v) :=
    fun v hv c hc => UInt8.le_of_lt (hfloats.printed v hv c hc)
  have hline : ∀ tag fields, tag ∈ [ascii "name", ascii "midi",
      ascii "helper", ascii "route", ascii "volume", ascii "effect",
      ascii "param"] → (∀ field ∈ fields, Printable field) →
      Printable (words (tag :: fields)) := by
    intro tag fields htag' hfields
    apply printable_words
    intro field hfield
    rcases List.mem_cons.mp hfield with rfl | hfield
    · exact htag _ htag'
    · exact hfields field hfield
  intro line hmem
  simp only [sceneLines, List.mem_append, List.mem_cons, List.mem_map,
    List.not_mem_nil, or_false] at hmem
  rcases hmem with ((((rfl | rfl | rfl | rfl) | ⟨route, -, rfl⟩) |
    ⟨v, hv, rfl⟩) | ⟨e, he, rfl⟩) | ⟨p, hp, rfl⟩
  · intro c hc
    have hall : schemaLine.all (fun c => 32 ≤ c) = true := by decide
    simpa using List.all_eq_true.mp hall c hc
  · apply hline _ _ (by decide)
    simpa using printable_encode scene.name
  · apply hline _ _ (by decide)
    simpa using ⟨(isWord_showInt _).printable, (isWord_showInt _).printable⟩
  · apply hline _ _ (by decide)
    simpa using (isWord_showDecimal _).printable
  · apply hline _ _ (by decide)
    simpa using printable_encode route
  · apply hline _ _ (by decide)
    simpa using
      ⟨printable_encode v.thingId, hfloat _ (haccepted.volumes v hv).2⟩
  · obtain ⟨-, hname, -, htype, -⟩ := haccepted.effects e he
    have hword := (effectName_encode hname).1.printable
    simp only [ne_eq, ite_not] at hword
    apply hline _ _ (by decide)
    simpa using ⟨printable_encode e.effectId, htype.printable,
      (isWord_showDecimal _).printable, hword⟩
  · obtain ⟨-, hparam, hvalue⟩ := haccepted.params p hp
    have hname : Printable p.param :=
      fun c hc => UInt8.not_lt.mp ((textValid_iff.mp hparam).2.2 c hc).1
    apply hline _ _ (by decide)
    simpa using ⟨printable_encode p.effectId, hname, hfloat _ hvalue⟩

theorem zero_notMem_sceneText {floats : Floats F} (hfloats : floats.RoundTrips)
    {scene : Scene F} (haccepted : Accepted floats scene) :
    0 ∉ sceneText floats scene := by
  intro hmem
  obtain ⟨line, hline, hmem⟩ := List.mem_flatMap.mp hmem
  rcases List.mem_append.mp hmem with hmem | hmem
  · have hle := printable_sceneLines hfloats haccepted line hline _ hmem
    exact absurd hle (by decide)
  · exact absurd hmem (by decide)

theorem lines_sceneText {floats : Floats F} (hfloats : floats.RoundTrips)
    {scene : Scene F} (haccepted : Accepted floats scene) :
    lines (sceneText floats scene) = sceneLines floats scene := by
  apply lines_flatMap
  intro line hline hmem
  have hle := printable_sceneLines hfloats haccepted line hline _ hmem
  exact absurd hle (by decide)

theorem readScene_sceneText {host : Host F} (hfloats : host.floats.RoundTrips)
    {scene : Scene F} (hvalid : validate host scene false = .ok ())
    (hplain : Plain host.floats scene)
    (hsize : (sceneText host.floats scene).length ≤ maxFileSize) :
    readScene host (sceneText host.floats scene) scene.id = .ok scene := by
  have haccepted := accepted_of_validate hvalid
  have hzero := zero_notMem_sceneText hfloats haccepted
  have hhead : (sceneLines host.floats scene).head? = some schemaLine := rfl
  simp only [readScene, flatten_fgets 1024 hzero,
    lines_sceneText hfloats haccepted, hhead,
    foldlM_sceneLines hfloats haccepted hplain]
  rw [failIf_neg (by omega), ok_bind, failIf_neg (by omega), ok_bind,
    failIf_neg (by simp), ok_bind, ok_bind, failIf_neg (by simp), ok_bind,
    hvalid]
  rfl

/-! ## What can be read -/

theorem space_notMem_nextWord {s word rest : Bytes}
    (h : nextWord s = some (word, rest)) : chr ' ' ∉ word := by
  rw [nextWord] at h
  split_ifs at h
  obtain ⟨rfl, -⟩ := Prod.mk.inj (Option.some.inj h)
  intro hmem
  have hspace := List.mem_takeWhile_imp hmem
  exact absurd hspace (by decide)

/-- What the fields behind a tag can change. -/
structure FieldsRead (floats : Floats F) (tag : Bytes)
    (st st' : SceneReader F) : Prop where
  id : st'.scene.id = st.scene.id
  name : tag ≠ ascii "name" → st'.scene.name = st.scene.name
  binding : tag ≠ ascii "midi" →
    st'.scene.channel = st.scene.channel ∧ st'.scene.note = st.scene.note
  params : st'.scene.params = st.scene.params ∨
    ∃ p : MidiEffectParam F, chr ' ' ∉ p.param ∧
      st'.scene.params = st.scene.params ++ [p]
  effects : st'.scene.effects = st.scene.effects ∨
    ∃ e : MidiEffectState F, (e.gain = floats.literal 1 ∧
      e.drive = floats.literal 1 ∧ e.clip = floats.literal 1 ∧
      e.output = floats.literal 1) ∧
      st'.scene.effects = st.scene.effects ++ [e]

theorem FieldsRead.plain {floats : Floats F} {tag : Bytes}
    {st st' : SceneReader F} (h : FieldsRead floats tag st st')
    (hst : Plain floats st.scene) : Plain floats st'.scene := by
  constructor
  · intro p hp
    rcases h.params with hparams | ⟨q, hq, hparams⟩
    · rw [hparams] at hp
      exact hst.params p hp
    · rw [hparams, List.mem_append, List.mem_singleton] at hp
      rcases hp with hp | rfl
      · exact hst.params p hp
      · exact hq
  · intro e he
    rcases h.effects with heffects | ⟨f, hf, heffects⟩
    · rw [heffects] at he
      exact hst.effects e he
    · rw [heffects, List.mem_append, List.mem_singleton] at he
      rcases he with he | rfl
      · exact hst.effects e he
      · exact hf

theorem fieldsRead {floats : Floats F} {st st' : SceneReader F}
    {tag s s' : Bytes} (h : readFields floats st tag s = .ok (st', s')) :
    FieldsRead floats tag st st' := by
  rw [readFields] at h
  split_ifs at h with hname hmidi hhelper hroute hvolume heffect hparam
  · rw [orFail_eq_ok, readName] at h
    split_ifs at h
    simp only [Option.bind_eq_bind, Option.bind_eq_some_iff] at h
    obtain ⟨⟨name, s⟩, -, hst⟩ := h
    obtain ⟨rfl, -⟩ := Prod.mk.inj (Option.some.inj hst)
    exact ⟨rfl, fun hne => absurd hname hne, fun _ => ⟨rfl, rfl⟩, .inl rfl,
      .inl rfl⟩
  · rw [orFail_eq_ok, readBinding] at h
    split_ifs at h
    simp only [Option.bind_eq_bind, Option.bind_eq_some_iff] at h
    obtain ⟨⟨channel, s⟩, -, ⟨note, s⟩, -, hst⟩ := h
    obtain ⟨rfl, -⟩ := Prod.mk.inj (Option.some.inj hst)
    exact ⟨rfl, fun _ => rfl, fun hne => absurd hmidi hne, .inl rfl, .inl rfl⟩
  · rw [orFail_eq_ok, readHelper] at h
    split_ifs at h
    simp only [Option.bind_eq_bind, Option.bind_eq_some_iff] at h
    obtain ⟨⟨flag, s⟩, -, hst⟩ := h
    split_ifs at hst
    obtain ⟨rfl, -⟩ := Prod.mk.inj (Option.some.inj hst)
    exact ⟨rfl, fun _ => rfl, fun _ => ⟨rfl, rfl⟩, .inl rfl, .inl rfl⟩
  · rw [orFail_eq_ok, readRoute] at h
    simp only [Option.bind_eq_bind, Option.bind_eq_some_iff] at h
    obtain ⟨⟨route, s⟩, -, hst⟩ := h
    obtain ⟨rfl, -⟩ := Prod.mk.inj (Option.some.inj hst)
    exact ⟨rfl, fun _ => rfl, fun _ => ⟨rfl, rfl⟩, .inl rfl, .inl rfl⟩
  · rw [orFail_eq_ok, readVolume] at h
    simp only [Option.bind_eq_bind, Option.bind_eq_some_iff] at h
    obtain ⟨⟨word, s⟩, -, ⟨gain, s⟩, -, thingId, -, hst⟩ := h
    split_ifs at hst
    obtain ⟨rfl, -⟩ := Prod.mk.inj (Option.some.inj hst)
    exact ⟨rfl, fun _ => rfl, fun _ => ⟨rfl, rfl⟩, .inl rfl, .inl rfl⟩
  · simp only [readEffect, bind_eq_ok, failIf_eq_ok, exists_const] at h
    obtain ⟨⟨idText, s⟩, -, ⟨type, s⟩, -, ⟨enabled, s⟩, -, ⟨word, s⟩, -,
      effectId, -, -, name, -, hst⟩ := h
    obtain ⟨rfl, -⟩ := Prod.mk.inj (Except.ok.inj hst)
    exact ⟨rfl, fun _ => rfl, fun _ => ⟨rfl, rfl⟩, .inl rfl,
      .inr ⟨_, ⟨rfl, rfl, rfl, rfl⟩, rfl⟩⟩
  · rw [orFail_eq_ok, readParam] at h
    simp only [Option.bind_eq_bind, Option.bind_eq_some_iff] at h
    obtain ⟨⟨word, s⟩, -, ⟨param, s⟩, hword, ⟨value, s⟩, -, effectId, -,
      hst⟩ := h
    split_ifs at hst
    obtain ⟨rfl, -⟩ := Prod.mk.inj (Option.some.inj hst)
    exact ⟨rfl, fun _ => rfl, fun _ => ⟨rfl, rfl⟩,
      .inr ⟨_, space_notMem_nextWord hword, rfl⟩, .inl rfl⟩

/-- A line is skipped, or its fields are read. -/
theorem readLine_cases {floats : Floats F} {st st' : SceneReader F}
    {line : Bytes} (h : readLine floats st line = .ok st') :
    (nextWord line = none ∧ st' = st) ∨
      ∃ tag rest, nextWord line = some (tag, rest) ∧
        FieldsRead floats tag st st' := by
  rw [readLine] at h
  split at h
  next hword => exact .inl ⟨hword, (Except.ok.inj h).symm⟩
  next tag rest hword =>
    simp only [bind_eq_ok, failIf_eq_ok, exists_const] at h
    obtain ⟨⟨st₁, s⟩, hfields, -, hst⟩ := h
    obtain rfl := Except.ok.inj hst
    exact .inr ⟨tag, rest, hword, fieldsRead hfields⟩

/-- What is known of every scene that is read. -/
structure SceneRead (host : Host F) (file id : Bytes) (scene : Scene F) :
    Prop where
  size : file.length ≤ maxFileSize
  id : scene.id = id
  plain : Plain host.floats scene
  valid : validate host scene false = .ok ()

theorem sceneRead {host : Host F} {file id : Bytes} {scene : Scene F}
    (h : readScene host file id = .ok scene) : SceneRead host file id scene := by
  simp only [readScene, bind_eq_ok, failIf_eq_ok, exists_const] at h
  obtain ⟨hsize, -, -, st, hfold, -, ⟨⟩, hvalid, hscene⟩ := h
  obtain rfl := Except.ok.inj hscene
  have hstart : ({ id := id, name := [] } : Scene F).id = id ∧
      Plain host.floats ({ id := id, name := [] } : Scene F) :=
    ⟨rfl, ⟨by simp, by simp⟩⟩
  have hline : ∀ (st : SceneReader F) (line : Bytes)
      (_ : line ∈ (lines (fgets 1024 file).flatten).tail)
      (st' : SceneReader F), st.scene.id = id ∧ Plain host.floats st.scene →
      readLine host.floats st line = .ok st' →
      st'.scene.id = id ∧ Plain host.floats st'.scene := by
    intro st line _ st' hst hread
    rcases readLine_cases hread with ⟨-, rfl⟩ | ⟨tag, rest, -, hfields⟩
    · exact hst
    · exact ⟨hfields.id.trans hst.1, hfields.plain hst.2⟩
  obtain ⟨hid, hplain⟩ := foldlM_invariant
    (fun st : SceneReader F =>
      st.scene.id = id ∧ Plain host.floats st.scene) hline hstart hfold
  exact ⟨by omega, hid, hplain, hvalid⟩

/-- The tag of a line behind the first four. -/
theorem tag_of_mem {floats : Floats F} {scene : Scene F} {line : Bytes}
    (h : line ∈ (sceneLines floats scene).drop 4) :
    ∃ tag fields, line = words (tag :: fields) ∧ IsWord tag ∧
      tag ≠ ascii "name" ∧ tag ≠ ascii "midi" := by
  have hdrop : (sceneLines floats scene).drop 4 =
      (scene.routes.map fun route => words [ascii "route", encode route]) ++
        scene.volumes.map (volumeLine floats) ++
        scene.effects.map effectLine ++
        scene.params.map (paramLine floats) := by
    rw [sceneLines]
    simp only [List.append_assoc]
    rfl
  have htag : ∀ tag fields, tag ∈ [ascii "route", ascii "volume",
      ascii "effect", ascii "param"] → ∃ tag' fields',
      words (tag :: fields) = words (tag' :: fields') ∧ IsWord tag' ∧
        tag' ≠ ascii "name" ∧ tag' ≠ ascii "midi" := by
    intro tag fields hmem
    have hall : ∀ tag ∈ [ascii "route", ascii "volume", ascii "effect",
        ascii "param"], (tag ≠ [] && tag.all fun c => 32 < c) = true ∧
        tag ≠ ascii "name" ∧ tag ≠ ascii "midi" := by decide
    obtain ⟨hword, hname, hmidi⟩ := hall tag hmem
    exact ⟨tag, fields, rfl, isWord_of_all hword, hname, hmidi⟩
  rw [hdrop] at h
  simp only [List.mem_append, List.mem_map] at h
  rcases h with ((⟨route, -, rfl⟩ | ⟨v, -, rfl⟩) | ⟨e, -, rfl⟩) | ⟨p, -, rfl⟩
  · exact htag _ _ (by decide)
  · exact htag _ _ (by decide)
  · exact htag _ _ (by decide)
  · exact htag _ _ (by decide)

/-- Whatever becomes of the other lines, the name and the binding of a stored
scene are read as they were written. -/
theorem head_of_readScene {host : Host F} (hfloats : host.floats.RoundTrips)
    {scene other : Scene F} (haccepted : Accepted host.floats scene) {id : Bytes}
    (h : readScene host (sceneText host.floats scene) id = .ok other) :
    other.name = scene.name ∧ other.channel = scene.channel ∧
      other.note = scene.note := by
  have hzero := zero_notMem_sceneText hfloats haccepted
  simp only [readScene, flatten_fgets 1024 hzero,
    lines_sceneText hfloats haccepted, bind_eq_ok, failIf_eq_ok,
    exists_const] at h
  obtain ⟨-, -, -, st, hfold, -, ⟨⟩, -, hscene⟩ := h
  obtain rfl := Except.ok.inj hscene
  have hsplit : (sceneLines host.floats scene).tail =
      words [ascii "name", encode scene.name] ::
      words [ascii "midi", showInt scene.channel, showInt scene.note] ::
      words [ascii "helper", showDecimal (if scene.helper then 1 else 0)] ::
      (sceneLines host.floats scene).drop 4 := by
    rw [sceneLines]
    simp only [List.append_assoc]
    rfl
  rw [hsplit, List.foldlM_cons, readLine_name _ _ haccepted.name rfl, ok_bind,
    List.foldlM_cons, readLine_binding _ _ haccepted.binding rfl, ok_bind,
    List.foldlM_cons, readLine_helper _ _ scene.helper rfl, ok_bind] at hfold
  have hline : ∀ (st : SceneReader F),
      ∀ line ∈ (sceneLines host.floats scene).drop 4, ∀ st' : SceneReader F,
      st.scene.name = scene.name ∧ st.scene.channel = scene.channel ∧
        st.scene.note = scene.note →
      readLine host.floats st line = .ok st' →
      st'.scene.name = scene.name ∧ st'.scene.channel = scene.channel ∧
        st'.scene.note = scene.note := by
    intro st line hmem st' hst hread
    obtain ⟨tag, fields, rfl, hword, hname, hmidi⟩ := tag_of_mem hmem
    rcases readLine_cases hread with ⟨-, rfl⟩ | ⟨tag', rest, htag, hfields⟩
    · exact hst
    · rw [words_cons, nextWord_append hword] at htag
      obtain ⟨rfl, -⟩ := Prod.mk.inj (Option.some.inj htag)
      obtain ⟨hchannel, hnote⟩ := hfields.binding hmidi
      exact ⟨(hfields.name hname).trans hst.1, hchannel.trans hst.2.1,
        hnote.trans hst.2.2⟩
  exact foldlM_invariant
    (fun st : SceneReader F => st.scene.name = scene.name ∧
      st.scene.channel = scene.channel ∧ st.scene.note = scene.note)
    hline ⟨rfl, rfl, rfl⟩ hfold

/-- The text of an accepted scene is read back as that scene exactly if it is
not too long and the scene is plain. -/
theorem readScene_sceneText_iff {host : Host F}
    (hfloats : host.floats.RoundTrips) {scene : Scene F}
    (hvalid : validate host scene false = .ok ()) :
    readScene host (sceneText host.floats scene) scene.id = .ok scene ↔
      (sceneText host.floats scene).length ≤ maxFileSize ∧
        Plain host.floats scene := by
  constructor
  · intro h
    have hread := sceneRead h
    exact ⟨hread.size, hread.plain⟩
  · rintro ⟨hsize, hplain⟩
    exact readScene_sceneText hfloats hvalid hplain hsize

/-! ## The length of the text -/

def intLength (n : Int) : Nat :=
  (showInt n).length

/-- The length of the text of a scene. -/
def sceneSize (floats : Floats F) (scene : Scene F) : Nat :=
  38 + 2 * scene.name.length + intLength scene.channel +
    intLength scene.note +
    (scene.routes.map fun route => 7 + 2 * route.length).sum +
    (scene.volumes.map fun v =>
      9 + 2 * v.thingId.length + (floats.print v.gain).length).sum +
    (scene.effects.map fun e =>
      12 + 2 * e.effectId.length + e.type.length +
        (if e.name = [] then 1 else 2 * e.name.length)).sum +
    (scene.params.map fun p =>
      9 + 2 * p.effectId.length + p.param.length +
        (floats.print p.value).length).sum

theorem length_flatMap_lines (lines : List Bytes) :
    (lines.flatMap (· ++ ascii "\n")).length =
      (lines.map fun line => line.length + 1).sum := by
  rw [List.length_flatMap]
  congr 1
  apply List.map_congr_left
  intro line _
  rw [List.length_append]
  rfl

theorem length_sceneText {floats : Floats F} {scene : Scene F}
    (haccepted : Accepted floats scene) :
    (sceneText floats scene).length = sceneSize floats scene := by
  have hhelper : ∀ helper : Bool,
      (showDecimal (if helper then 1 else 0)).length = 1 := by decide
  have hlast : ∀ word : Bytes, (words [word]).length = word.length :=
    fun _ => rfl
  have hmore : ∀ (word next : Bytes) (rest : List Bytes),
      (words (word :: next :: rest)).length =
        word.length + (1 + (words (next :: rest)).length) := by
    intro word next rest
    rw [words_cons, behind, List.length_append, List.length_cons,
      Nat.add_comm 1]
    exact List.cons_ne_nil _ _
  have hroutes : ((scene.routes.map fun route =>
      words [ascii "route", encode route]).map fun line =>
        line.length + 1) = scene.routes.map fun route =>
          7 + 2 * route.length := by
    rw [List.map_map]
    apply List.map_congr_left
    intro route _
    simp only [Function.comp, hmore, hlast, length_encode]
    rw [show (ascii "route").length = 5 by rfl]
    omega
  have hvolumes : ((scene.volumes.map (volumeLine floats)).map fun line =>
      line.length + 1) = scene.volumes.map fun v =>
        9 + 2 * v.thingId.length + (floats.print v.gain).length := by
    rw [List.map_map]
    apply List.map_congr_left
    intro v _
    simp only [Function.comp, volumeLine, hmore, hlast, length_encode]
    rw [show (ascii "volume").length = 6 by rfl]
    omega
  have heffects : ((scene.effects.map effectLine).map fun line =>
      line.length + 1) = scene.effects.map fun e =>
        12 + 2 * e.effectId.length + e.type.length +
          (if e.name = [] then 1 else 2 * e.name.length) := by
    rw [List.map_map]
    apply List.map_congr_left
    intro e he
    obtain ⟨-, -, henabled, -, -⟩ := haccepted.effects e he
    have hle : e.enabled.toNat < 10 ^ 1 := by
      have hle' := UInt8.le_iff_toNat_le.mp henabled
      exact lt_of_le_of_lt hle' (by decide)
    have hdigit := length_showDecimal_le (by decide) hle
    have hpos := List.length_pos_of_ne_nil (showDecimal_ne_nil e.enabled.toNat)
    have hname : (if e.name ≠ [] then encode e.name
        else ascii "-").length =
        if e.name = [] then 1 else 2 * e.name.length := by
      by_cases h : e.name = []
      · rw [if_neg (not_not.mpr h), if_pos h]
        rfl
      · rw [if_pos h, if_neg h, length_encode]
    simp only [Function.comp, effectLine, hmore, hlast, length_encode, hname]
    rw [show (ascii "effect").length = 6 by rfl]
    omega
  have hparams : ((scene.params.map (paramLine floats)).map fun line =>
      line.length + 1) = scene.params.map fun p =>
        9 + 2 * p.effectId.length + p.param.length +
          (floats.print p.value).length := by
    rw [List.map_map]
    apply List.map_congr_left
    intro p _
    simp only [Function.comp, paramLine, hmore, hlast, length_encode]
    rw [show (ascii "param").length = 5 by rfl]
    omega
  rw [sceneText, length_flatMap_lines, sceneLines, sceneSize]
  simp only [List.map_append, List.map_cons, List.map_nil, List.sum_append,
    List.sum_cons, List.sum_nil, hroutes, hvolumes, heffects, hparams, hmore,
    hlast, length_encode, hhelper, intLength]
  rw [show schemaLine.length = 15 by rfl, show (ascii "name").length = 4 by rfl,
    show (ascii "midi").length = 4 by rfl,
    show (ascii "helper").length = 6 by rfl]
  omega

end Audiox.Scenes
