import Audiox.Scripting.SettingsReadBack
import Mathlib

/-!
# Settings as a finite map

Changes of the settings file against the map of keys and values that they
should leave.  They agree as long as no subnormal number is set: after that
nothing can be read any more, and nothing can be changed.
-/

namespace Audiox.Scripting.ScriptSettings

open ByteCodec Scenes KeyedList KeyedArray ScriptStateEntry

variable {D : Type} (doubles : Doubles D)

/-! ## Runs -/

structure SettingCall (D : Type) where
  entry : ScriptStateEntry D
  remove : Bool

/-- Whether a call passes the checks in front of the file. -/
def accepted (call : SettingCall D) : Bool :=
  if call.remove then validKey call.entry.key
  else validSetting doubles call.entry

/-- The file after a call; a call that fails does not write. -/
def afterCall (file : Option Bytes) (call : SettingCall D) : Option Bytes :=
  match setSetting doubles file call.entry call.remove with
  | .ok text => some text
  | .error _ => file

/-- The file of a new script after some calls. -/
def stored (calls : List (SettingCall D)) : Option Bytes :=
  calls.foldl (afterCall doubles) none

/-! ## The map -/

abbrev SettingMap (D : Type) :=
  Bytes → Option (SettingValue D)

/-- A key is in the map, or fewer keys than the most are. -/
def HasRoom (m : SettingMap D) (k : Bytes) : Prop :=
  m k ≠ none ∨ Set.ncard {k | m k ≠ none} < SCRIPT_STATE_ENTRIES_MAX

/-- Whether a call changes the map. -/
def Applies (m : SettingMap D) (call : SettingCall D) : Prop :=
  accepted doubles call = true ∧
    (call.remove = true ∨ HasRoom m call.entry.keyText)

open Classical in
noncomputable def expectedAfter (m : SettingMap D) (call : SettingCall D) :
    SettingMap D :=
  if Applies doubles m call then
    Function.update m call.entry.keyText
      (if call.remove then none else some (valueOf call.entry))
  else m

noncomputable def expected (calls : List (SettingCall D)) : SettingMap D :=
  calls.foldl (expectedAfter doubles) fun _ => none

/-- What is read from a file is the map, every key once. -/
def Reads (file : Option Bytes) (m : SettingMap D) : Prop :=
  ∃ entries, readSettings doubles file = some entries ∧
    (entries.map keyText).Nodup ∧
    (∀ e ∈ entries, validSetting doubles e = true) ∧
    ∀ k v, (∃ e ∈ entries, e.keyText = k ∧ valueOf e = v) ↔ m k = some v

/-- After every call of a run the file reads as the map, a call that applies
succeeds, and one that fails leaves the file alone. -/
structure Meets (calls : List (SettingCall D)) : Prop where
  reads : ∀ past, past <+: calls →
    Reads doubles (stored doubles past) (expected doubles past)
  succeeds : ∀ past call, past ++ [call] <+: calls →
    Applies doubles (expected doubles past) call →
    ∃ text, setSetting doubles (stored doubles past) call.entry call.remove =
      .ok text
  unchanged : ∀ past call errno, past ++ [call] <+: calls →
    setSetting doubles (stored doubles past) call.entry call.remove =
      .error errno →
    stored doubles (past ++ [call]) = stored doubles past

/-- A call does not put a subnormal number into the map. -/
def Harmless (m : SettingMap D) (call : SettingCall D) : Prop :=
  call.remove = false → Applies doubles m call →
    subnormalNumber doubles call.entry = false

/-! ## Entries as a map -/

variable {doubles}

def asMap (entries : List (ScriptStateEntry D)) : SettingMap D :=
  fun k => (find keyText k entries).map valueOf

theorem asMap_reread (entries : List (ScriptStateEntry D)) :
    asMap (entries.map (reread doubles)) = asMap entries := by
  funext k
  have hkey : (fun e : ScriptStateEntry D => decide (e.keyText = k)) ∘
      reread doubles = fun e => decide (e.keyText = k) := by
    funext e
    simp only [Function.comp, keyText_reread]
  have hvalue : (valueOf : ScriptStateEntry D → _) ∘ reread doubles =
      valueOf := by
    funext e
    exact valueOf_reread e
  rw [asMap, asMap, find, List.find?_map, hkey, Option.map_map, hvalue]
  rfl

theorem asMap_eq_some_iff {entries : List (ScriptStateEntry D)}
    (hkeys : (entries.map keyText).Nodup) (k : Bytes) (v : SettingValue D) :
    (∃ e ∈ entries, e.keyText = k ∧ valueOf e = v) ↔
      asMap entries k = some v := by
  rw [asMap, Option.map_eq_some_iff]
  constructor
  · rintro ⟨e, he, hkey, hvalue⟩
    exact ⟨e, (find_eq_some_iff hkeys).mpr ⟨he, hkey⟩, hvalue⟩
  · rintro ⟨e, hfind, hvalue⟩
    obtain ⟨he, hkey⟩ := mem_of_find hfind
    exact ⟨e, he, hkey, hvalue⟩

theorem asMap_ne_none_iff {entries : List (ScriptStateEntry D)} {k : Bytes} :
    asMap entries k ≠ none ↔ position keyText k entries < entries.length := by
  rw [asMap, Ne, Option.map_eq_none_iff]
  exact isSome_find_iff

theorem ncard_asMap {entries : List (ScriptStateEntry D)}
    (hkeys : (entries.map keyText).Nodup) :
    Set.ncard {k | asMap entries k ≠ none} = entries.length := by
  have hset : {k | asMap entries k ≠ none} =
      ↑(entries.map keyText).toFinset := by
    ext k
    rw [Set.mem_ofPred_eq, asMap_ne_none_iff, position_lt_iff]
    simp
  rw [hset, Set.ncard_coe_finset, List.toFinset_card_of_nodup hkeys,
    List.length_map]

theorem asMap_putAt {entries : List (ScriptStateEntry D)}
    (hkeys : (entries.map keyText).Nodup) (e : ScriptStateEntry D) :
    asMap (putAt (position keyText e.keyText entries) e entries) =
      Function.update (asMap entries) e.keyText (some (valueOf e)) := by
  funext k
  rw [asMap, find_putAt hkeys, Function.update_apply]
  split
  · rfl
  · rfl

theorem asMap_takeOut {entries : List (ScriptStateEntry D)} {k : Bytes}
    (h : position keyText k entries < entries.length)
    (hkeys : (entries.map keyText).Nodup) :
    asMap (takeOut (position keyText k entries) entries) =
      Function.update (asMap entries) k none := by
  funext k'
  rw [asMap, find_takeOut h hkeys, Function.update_apply]
  split
  · rfl
  · rfl

/-! ## One call -/

/-- What is read from a file can be kept, and is the map. -/
def Holds (doubles : Doubles D) (file : Option Bytes) (m : SettingMap D) : Prop :=
  ∃ entries, readSettings doubles file = some entries ∧
    Kept doubles entries ∧ m = asMap entries

theorem Holds.reads {file : Option Bytes} {m : SettingMap D}
    (h : Holds doubles file m) : Reads doubles file m := by
  obtain ⟨entries, hread, hkept, rfl⟩ := h
  exact ⟨entries, hread, hkept.keys, hkept.valid, asMap_eq_some_iff hkept.keys⟩

theorem Kept.reread (hexact : doubles.Exact)
    {entries : List (ScriptStateEntry D)} (h : Kept doubles entries) :
    Kept doubles (entries.map (reread doubles)) where
  valid := by
    intro e he
    obtain ⟨a, ha, rfl⟩ := List.mem_map.mp he
    exact validSetting_reread hexact (h.valid a ha)
  normal := by
    intro e he
    obtain ⟨a, ha, rfl⟩ := List.mem_map.mp he
    exact subnormalNumber_reread (h.normal a ha)
  keys := by
    have hkey : (keyText : ScriptStateEntry D → _) ∘ ScriptSettings.reread doubles =
        keyText := by
      funext e
      exact keyText_reread e
    rw [List.map_map, hkey]
    exact h.keys
  room := by
    rw [List.length_map]
    exact h.room

theorem Holds.of_text (hexact : doubles.Exact)
    {entries : List (ScriptStateEntry D)} (h : Kept doubles entries) :
    Holds doubles (some (settingsText doubles entries)) (asMap entries) :=
  ⟨entries.map (reread doubles), readSettings_kept hexact h, h.reread hexact,
    (asMap_reread entries).symm⟩

theorem length_of_readSettings {file : Option Bytes}
    {entries : List (ScriptStateEntry D)}
    (h : readSettings doubles file = some entries) :
    (file.getD []).length ≤ SETTINGS_MAX := by
  cases file with
  | none => exact Nat.zero_le _
  | some text =>
      rw [readSettings] at h
      split at h
      · exact absurd h (by simp)
      · next hsmall => exact Nat.not_lt.mp fun hlarge => hsmall (.inl hlarge)

/-- An accepted call on a file that can be read writes what it changes. -/
theorem setSetting_of_read {file : Option Bytes}
    {entries : List (ScriptStateEntry D)} {call : SettingCall D}
    (hread : readSettings doubles file = some entries)
    (haccepted : accepted doubles call = true) :
    setSetting doubles file call.entry call.remove =
      match changed entries call.entry call.remove
          (position keyText call.entry.keyText entries) with
      | .error errno => .error errno
      | .ok new =>
          if (settingsText doubles new).length > SCRIPT_STORAGE_TOTAL_MAX then
            .error .EDQUOT
          else .ok (settingsText doubles new) := by
  have hsmall := length_of_readSettings hread
  rw [accepted] at haccepted
  rw [setSetting, if_neg (by rw [haccepted]; exact Bool.noConfusion), hread]
  dsimp only
  cases changed entries call.entry call.remove
      (position keyText call.entry.keyText entries) with
  | error errno => rfl
  | ok new =>
      simp only [bind, Except.bind, writeLocked]
      rw [if_neg (by omega), Nat.sub_self, Nat.zero_add]

/-- A text that is written for accepted entries fits. -/
theorem setSetting_ok (hexact : doubles.Exact) {file : Option Bytes}
    {entries new : List (ScriptStateEntry D)} {call : SettingCall D}
    (hread : readSettings doubles file = some entries)
    (haccepted : accepted doubles call = true)
    (hchanged : changed entries call.entry call.remove
      (position keyText call.entry.keyText entries) = .ok new)
    (hvalid : ∀ e ∈ new, validSetting doubles e = true)
    (hroom : new.length ≤ SCRIPT_STATE_ENTRIES_MAX) :
    setSetting doubles file call.entry call.remove =
      .ok (settingsText doubles new) := by
  obtain ⟨hsize, -⟩ := settingsText_spec hexact hvalid hroom
  have htotal : SETTINGS_MAX ≤ SCRIPT_STORAGE_TOTAL_MAX := by decide
  rw [setSetting_of_read hread haccepted, hchanged]
  dsimp only
  rw [if_neg (by omega)]

/-- The room of the map is the room of the array. -/
theorem hasRoom_iff {entries : List (ScriptStateEntry D)}
    (h : Kept doubles entries) (k : Bytes) :
    HasRoom (asMap entries) k ↔
      ¬(position keyText k entries = entries.length ∧
        entries.length = SCRIPT_STATE_ENTRIES_MAX) := by
  have hroom := h.room
  have hle : position keyText k entries ≤ entries.length := position_le
  rw [HasRoom, asMap_ne_none_iff, ncard_asMap h.keys]
  omega

/-- The entries that a call leaves, in the map's terms. -/
structure Change (entries : List (ScriptStateEntry D)) (call : SettingCall D)
    (new : List (ScriptStateEntry D)) : Prop where
  members : ∀ e ∈ new, e ∈ entries ∨ (e = call.entry ∧ call.remove = false)
  added : call.remove = false → call.entry ∈ new
  keys : (new.map keyText).Nodup
  room : new.length ≤ SCRIPT_STATE_ENTRIES_MAX
  map : asMap new = Function.update (asMap entries) call.entry.keyText
    (if call.remove then none else some (valueOf call.entry))

theorem changed_remove {entries : List (ScriptStateEntry D)}
    {call : SettingCall D} (hkept : Kept doubles entries)
    (hcall : call.remove = true) :
    ∃ new, changed entries call.entry call.remove
        (position keyText call.entry.keyText entries) = .ok new ∧
      Change entries call new := by
  have hadded : call.remove = false → ∀ P : Prop, P :=
    fun hfalse => absurd (hcall.symm.trans hfalse) Bool.noConfusion
  rw [changed, if_pos hcall]
  refine ⟨_, rfl, ?_⟩
  split
  · next hfound =>
      have hperm := takeOut_perm hfound hkept.keys
      refine ⟨?_, fun hfalse => hadded hfalse _,
        nodup_takeOut hfound hkept.keys,
        (length_takeOut_le hfound hkept.keys).trans hkept.room, ?_⟩
      · intro e he
        exact .inl (mem_without.mp (hperm.mem_iff.mp he)).1
      · rw [asMap_takeOut hfound hkept.keys, if_pos hcall]
  · next hmissing =>
      have hnone : asMap entries call.entry.keyText = none := by
        by_contra hsome
        exact hmissing (asMap_ne_none_iff.mp hsome)
      refine ⟨fun e he => .inl he, fun hfalse => hadded hfalse _, hkept.keys,
        hkept.room, ?_⟩
      rw [if_pos hcall, ← hnone, Function.update_eq_self]

theorem changed_put {entries : List (ScriptStateEntry D)}
    {call : SettingCall D} (hkept : Kept doubles entries)
    (hcall : call.remove = false)
    (hspace : HasRoom (asMap entries) call.entry.keyText) :
    ∃ new, changed entries call.entry call.remove
        (position keyText call.entry.keyText entries) = .ok new ∧
      Change entries call new := by
  have hfull := (hasRoom_iff hkept _).mp hspace
  have hroom := hkept.room
  have hle : position keyText call.entry.keyText entries ≤ entries.length :=
    position_le
  have hfalse : ¬call.remove = true := by
    rw [hcall]
    exact Bool.noConfusion
  rw [changed, if_neg hfalse, if_neg hfull]
  refine ⟨_, rfl, ?_, fun _ => (mem_putAt hkept.keys).mpr (.inl rfl),
    nodup_putAt hkept.keys, ?_, ?_⟩
  · intro e he
    rcases (mem_putAt hkept.keys).mp he with rfl | ⟨he, -⟩
    · exact .inr ⟨rfl, hcall⟩
    · exact .inl he
  · rw [length_putAt]
    split <;> omega
  · rw [asMap_putAt hkept.keys, if_neg hfalse]

/-- What a call that applies writes. -/
theorem setSetting_applies (hexact : doubles.Exact) {file : Option Bytes}
    {entries : List (ScriptStateEntry D)} {call : SettingCall D}
    (hread : readSettings doubles file = some entries)
    (hkept : Kept doubles entries)
    (happlies : Applies doubles (asMap entries) call) :
    ∃ new, setSetting doubles file call.entry call.remove =
        .ok (settingsText doubles new) ∧
      (∀ e ∈ new, validSetting doubles e = true) ∧ Change entries call new := by
  obtain ⟨haccepted, hspace⟩ := happlies
  obtain ⟨new, hchanged, hchange⟩ : ∃ new, changed entries call.entry
      call.remove (position keyText call.entry.keyText entries) = .ok new ∧
      Change entries call new := by
    cases hcall : call.remove with
    | true =>
        rw [← hcall]
        exact changed_remove hkept hcall
    | false =>
        rw [← hcall]
        apply changed_put hkept hcall
        rcases hspace with htrue | hspace
        · exact absurd (hcall.symm.trans htrue) Bool.noConfusion
        · exact hspace
  have hvalid : ∀ e ∈ new, validSetting doubles e = true := by
    intro e he
    rcases hchange.members e he with he | ⟨rfl, hcall⟩
    · exact hkept.valid e he
    · rw [accepted, hcall] at haccepted
      exact haccepted
  exact ⟨new, setSetting_ok hexact hread haccepted hchanged hvalid hchange.room,
    hvalid, hchange⟩

/-- A call that does not apply fails. -/
theorem setSetting_not_applies {file : Option Bytes}
    {entries : List (ScriptStateEntry D)} {call : SettingCall D}
    (hread : readSettings doubles file = some entries)
    (hkept : Kept doubles entries)
    (happlies : ¬Applies doubles (asMap entries) call) :
    ∃ errno, setSetting doubles file call.entry call.remove = .error errno := by
  cases haccepted : accepted doubles call with
  | false =>
      rw [accepted] at haccepted
      rw [setSetting, if_pos haccepted]
      exact ⟨_, rfl⟩
  | true =>
      rw [Applies, haccepted, eq_self, true_and, not_or,
        Bool.not_eq_true] at happlies
      obtain ⟨hcall, hfull⟩ := happlies
      rw [hasRoom_iff hkept, not_not] at hfull
      rw [setSetting_of_read hread haccepted, changed,
        if_neg (by rw [hcall]; exact Bool.noConfusion), if_pos hfull]
      exact ⟨_, rfl⟩

theorem Holds.after (hexact : doubles.Exact) {file : Option Bytes}
    {m : SettingMap D} {call : SettingCall D} (h : Holds doubles file m)
    (hharmless : Harmless doubles m call) :
    Holds doubles (afterCall doubles file call)
      (expectedAfter doubles m call) := by
  obtain ⟨entries, hread, hkept, rfl⟩ := h
  by_cases happlies : Applies doubles (asMap entries) call
  · obtain ⟨new, hset, hvalid, hchange⟩ :=
      setSetting_applies hexact hread hkept happlies
    have hnormal : ∀ e ∈ new, subnormalNumber doubles e = false := by
      intro e he
      rcases hchange.members e he with he | ⟨rfl, hcall⟩
      · exact hkept.normal e he
      · exact hharmless hcall happlies
    have hkept' : Kept doubles new :=
      ⟨hvalid, hnormal, hchange.keys, hchange.room⟩
    have htext := Holds.of_text hexact hkept'
    rw [afterCall, hset, expectedAfter, if_pos happlies, ← hchange.map]
    exact htext
  · obtain ⟨errno, hset⟩ := setSetting_not_applies hread hkept happlies
    rw [afterCall, hset, expectedAfter, if_neg happlies]
    exact ⟨entries, hread, hkept, rfl⟩

/-- A subnormal number makes the file unreadable. -/
theorem Holds.broken (hexact : doubles.Exact) {file : Option Bytes}
    {m : SettingMap D} {call : SettingCall D} (h : Holds doubles file m)
    (hharmful : ¬Harmless doubles m call) :
    readSettings doubles (afterCall doubles file call) = none := by
  obtain ⟨entries, hread, hkept, rfl⟩ := h
  rw [Harmless] at hharmful
  push Not at hharmful
  obtain ⟨hcall, happlies, hsub⟩ := hharmful
  obtain ⟨new, hset, hvalid, hchange⟩ :=
    setSetting_applies hexact hread hkept happlies
  rw [afterCall, hset]
  exact readSettings_subnormal hexact hvalid hchange.room
    ⟨call.entry, hchange.added hcall, Bool.ne_false_iff.mp hsub⟩

/-! ## Whole runs -/

theorem stored_concat (calls : List (SettingCall D)) (call : SettingCall D) :
    stored doubles (calls ++ [call]) =
      afterCall doubles (stored doubles calls) call :=
  List.foldl_concat _ _ _ _

theorem expected_concat (calls : List (SettingCall D)) (call : SettingCall D) :
    expected doubles (calls ++ [call]) =
      expectedAfter doubles (expected doubles calls) call :=
  List.foldl_concat _ _ _ _

theorem holds_nil : Holds doubles none fun _ => none := by
  refine ⟨[], rfl, ⟨by simp, by simp, List.nodup_nil, by simp⟩, ?_⟩
  funext k
  rfl

/-- While all is harmless, the file holds the map. -/
theorem holds_of_harmless (hexact : doubles.Exact)
    (calls : List (SettingCall D))
    (h : ∀ past call, past ++ [call] <+: calls →
      Harmless doubles (expected doubles past) call) :
    Holds doubles (stored doubles calls) (expected doubles calls) := by
  induction calls using List.reverseRecOn with
  | nil => exact holds_nil
  | append_singleton calls call ih =>
      rw [stored_concat, expected_concat]
      apply Holds.after hexact
      · apply ih
        intro past call' hpast
        exact h past call' (hpast.trans (List.prefix_append _ _))
      · exact h calls call (List.prefix_refl _)

/-- While all is read back, all is harmless. -/
theorem harmless_of_reads (hexact : doubles.Exact)
    (calls : List (SettingCall D))
    (h : ∀ past, past <+: calls →
      Reads doubles (stored doubles past) (expected doubles past)) :
    ∀ past call, past ++ [call] <+: calls →
      Harmless doubles (expected doubles past) call := by
  induction calls using List.reverseRecOn with
  | nil =>
      intro past call hpast
      exact absurd (List.prefix_nil.mp hpast) (by simp)
  | append_singleton calls call ih =>
      have hearlier := ih fun past hpast =>
        h past (hpast.trans (List.prefix_append _ _))
      intro past call' hpast
      rcases List.prefix_concat_iff.mp hpast with heq | hpast
      · obtain ⟨rfl, hcall⟩ := List.append_inj' heq rfl
        obtain rfl := List.singleton_inj.mp hcall
        by_contra hharmful
        have hnone := (holds_of_harmless hexact past hearlier).broken hexact
          hharmful
        obtain ⟨entries, hread, -⟩ := h _ (List.prefix_refl _)
        rw [stored_concat, hnone] at hread
        exact absurd hread (by simp)
      · exact hearlier past call' hpast

/-- The settings are the map that the calls ask for, as long as no call puts a
subnormal number into it. -/
theorem settings_map_iff (hexact : doubles.Exact)
    (calls : List (SettingCall D)) :
    Meets doubles calls ↔
      ∀ past call, past ++ [call] <+: calls →
        Harmless doubles (expected doubles past) call := by
  constructor
  · intro h
    exact harmless_of_reads hexact calls h.reads
  · intro h
    have hholds : ∀ past, past <+: calls →
        Holds doubles (stored doubles past) (expected doubles past) := by
      intro past hpast
      apply holds_of_harmless hexact
      intro earlier call hearlier
      exact h earlier call (hearlier.trans hpast)
    constructor
    · intro past hpast
      exact (hholds past hpast).reads
    · intro past call hpast happlies
      obtain ⟨entries, hread, hkept, hmap⟩ :=
        hholds past ((List.prefix_append _ _).trans hpast)
      rw [hmap] at happlies
      obtain ⟨new, hset, -⟩ := setSetting_applies hexact hread hkept happlies
      exact ⟨_, hset⟩
    · intro past call errno _ herror
      rw [stored_concat, afterCall, herror]

/-! ## A machine with few numbers -/

inductive Sample where
  | half
  | tiny
  | whole (n : Int64)
deriving DecidableEq

def halfText : Bytes := ascii "0.5"
def tinyText : Bytes := ascii "4.9406564584124654e-324"

def sampleDoubles : Doubles Sample where
  zero := .whole 0
  isFinite _ := true
  equal a b := decide (a = b)
  ofInteger n := .whole n
  subnormal d := decide (d = .tiny)
  print
    | .half => halfText
    | .tiny => tinyText
    | .whole n => showInt n.toInt
  strtod text :=
    if text = halfText then (.half, [], false)
    else if text = tinyText then (.tiny, [], true)
    else
      match strtoll text with
      | (n, tail, errno) => (.whole n, tail, errno)

theorem sampleTexts_spec :
    ∀ text ∈ [halfText, tinyText], text ≠ [] ∧ text.length ≤ 24 ∧
      (∀ c ∈ text, 32 < c) ∧ (strtoll text).2.1 ≠ [] := by
  decide +kernel

theorem showInt_ne {text : Bytes} (h : (strtoll text).2.1 ≠ []) (n : Int64) :
    showInt n.toInt ≠ text := by
  rintro rfl
  rw [strtoll_showInt] at h
  exact h rfl

theorem sampleDoubles_exact : sampleDoubles.Exact where
  finite _ := rfl
  equal_self d _ := decide_eq_true rfl
  printed := by
    intro d _
    cases d with
    | half =>
        obtain ⟨hne, hlen, hprinted, -⟩ := sampleTexts_spec halfText (by simp)
        exact ⟨hne, hlen, hprinted⟩
    | tiny =>
        obtain ⟨hne, hlen, hprinted, -⟩ := sampleTexts_spec tinyText (by simp)
        exact ⟨hne, hlen, hprinted⟩
    | whole n =>
        obtain ⟨hne, hprinted⟩ := isWord_showInt n.toInt
        exact ⟨hne, (length_showInt_le n).trans (by decide), hprinted⟩
  read := by
    intro d _
    cases d with
    | half => rfl
    | tiny => rfl
    | whole n =>
        have hhalf : showInt n.toInt ≠ halfText :=
          showInt_ne (sampleTexts_spec halfText (by simp)).2.2.2 n
        have htiny : showInt n.toInt ≠ tinyText :=
          showInt_ne (sampleTexts_spec tinyText (by simp)).2.2.2 n
        simp [sampleDoubles, hhalf, htiny, strtoll_showInt]

def numberEntry (key : String) (d : Sample) : ScriptStateEntry Sample :=
  { blank sampleDoubles with
    key := ascii key
    kind := .number
    numberValue := d }

/-- Two settings, of which one is removed again. -/
def halfRun : List (SettingCall Sample) :=
  [⟨numberEntry "volume" .half, false⟩, ⟨numberEntry "limit" (.whole 7), false⟩,
    ⟨numberEntry "volume" .half, true⟩]

theorem settings_map_halfRun : Meets sampleDoubles halfRun := by
  apply (settings_map_iff sampleDoubles_exact halfRun).mpr
  have hnormal : ∀ call ∈ halfRun,
      subnormalNumber sampleDoubles call.entry = false := by decide
  intro past call hpast _ _
  exact hnormal call (hpast.subset (by simp))

/-- The smallest number is accepted and written.  Then nothing can be read, and
no other setting can be changed. -/
theorem tiny_setting_unreadable :
    validSetting sampleDoubles (numberEntry "x" .tiny) = true ∧
    (∃ text, setSetting sampleDoubles none (numberEntry "x" .tiny) false =
      .ok text) ∧
    readSettings sampleDoubles
      (stored sampleDoubles [⟨numberEntry "x" .tiny, false⟩]) = none ∧
    setSetting sampleDoubles
        (stored sampleDoubles [⟨numberEntry "x" .tiny, false⟩])
        (numberEntry "limit" (.whole 7)) false = .error .EINVAL ∧
    ¬Meets sampleDoubles [⟨numberEntry "x" .tiny, false⟩] := by
  have hread : readSettings sampleDoubles
      (stored sampleDoubles [⟨numberEntry "x" .tiny, false⟩]) = none := by
    decide
  refine ⟨by decide, ⟨ascii "AX1\n78\tn\t4.9406564584124654e-324\n", ?_⟩,
    hread, ?_, ?_⟩
  · decide
  · rw [setSetting, hread]
    decide
  · intro h
    obtain ⟨entries, hsome, -⟩ := h.reads _ (List.prefix_refl _)
    rw [hread] at hsome
    exact absurd hsome (by simp)

end Audiox.Scripting.ScriptSettings
