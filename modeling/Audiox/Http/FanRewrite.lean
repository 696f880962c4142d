import Audiox.Http.FanText
import Mathlib

/-!
# Rewriting the fan block

The text that a request writes, against the text without the managed block.
-/

namespace Audiox.Http.FanConfig

open ByteCodec Config Checks Pattern Scenes

/-! ## Where the markers are -/

variable {s : FanSettings}

def blockBody (s : FanSettings) : Bytes :=
  headText ++ (List.finRange 4).flatMap (stepText s)

/-- The block that is written. -/
def blockText (s : FanSettings) : Bytes :=
  blockBody s ++ endText

theorem markers_spec : beginMarker.length = 30 ∧ endMarker.length = 28 ∧
    newline ∉ beginMarker ∧ newline ∉ endMarker ∧
    endMarker[0]? = some (chr '#') ∧ endMarker[25]? ≠ beginMarker[25]? ∧
    headText = beginMarker ++ newline :: ascii "[all]\n" ∧
    endText = endMarker ++ [newline] ∧ chr '#' ∉ headText.tail ∧
    firstAt beginMarker [newline] = none := by
  decide

theorem fanLine_plain {mid value : Bytes} (hmid : mid ∈ mids)
    (hvalue : ∀ c ∈ value, c ≠ chr '#' ∧ c ≠ newline) (i : Fin 4) :
    ∀ c ∈ fanLine i mid value, c ≠ chr '#' ∧ c ≠ newline := by
  have hkey : ∀ c ∈ fanKey, c ≠ chr '#' ∧ c ≠ newline := by decide +kernel
  intro c hc
  simp only [fanLine, List.mem_append] at hc
  rcases hc with ((hc | hc) | hc) | hc
  · exact hkey c hc
  · have hdigit := isDigit_of_mem_showDecimal hc
    exact ⟨isDigit_other hdigit (.inl (by decide)),
      isDigit_other hdigit (.inl (by decide))⟩
  · exact (mids_spec mid hmid).2.2.2.1 c hc
  · exact hvalue c hc

theorem showInt_plain {n : Int} (h : 0 ≤ n) :
    ∀ c ∈ showInt n, c ≠ chr '#' ∧ c ≠ newline := by
  intro c hc
  have hdigit := (showInt_spec h).1 c hc
  exact ⟨isDigit_other hdigit (.inl (by decide)),
    isDigit_other hdigit (.inl (by decide))⟩

theorem thousand_plain {n : Int} (h : 0 ≤ n) :
    ∀ c ∈ showInt n ++ ascii "000", c ≠ chr '#' ∧ c ≠ newline := by
  intro c hc
  have hdigit := (thousand_spec h).1 c hc
  exact ⟨isDigit_other hdigit (.inl (by decide)),
    isDigit_other hdigit (.inl (by decide))⟩

theorem stepLines_plain (hs : Requested s) (i : Fin 4) :
    ∀ line ∈ stepLines s i, ∀ c ∈ line, c ≠ chr '#' ∧ c ≠ newline := by
  have htemperature : 0 ≤ s.temperatures i := by
    have hlow := (hs.temperatures i).1
    omega
  have hspeed : 0 ≤ s.speeds i := by
    have hlow := (hs.speeds i).1
    omega
  have hhysteresis : 0 ≤ s.hysteresis := by
    have hlow := hs.hysteresis.1
    omega
  intro line hline
  simp only [stepLines, List.mem_cons, List.not_mem_nil, or_false] at hline
  rcases hline with rfl | rfl | rfl
  · exact fanLine_plain (by simp [mids]) (thousand_plain htemperature) i
  · exact fanLine_plain (by simp [mids]) (thousand_plain hhysteresis) i
  · exact fanLine_plain (by simp [mids]) (showInt_plain hspeed) i

theorem blockBody_eq (s : FanSettings) :
    blockBody s = beginMarker ++ newline ::
      (blockLines s).flatMap (· ++ ascii "\n") := by
  have hhead : headText = beginMarker ++ newline :: ascii "[all]\n" :=
    markers_spec.2.2.2.2.2.2.1
  have hall : ascii "[all]\n" = ascii "[all]" ++ ascii "\n" := by decide
  rw [blockBody, hhead, blockLines, List.flatMap_cons, hall, List.append_assoc,
    List.cons_append, List.flatMap_assoc, funext (stepText_eq s)]

/-- The only hash sign of the body starts its first marker. -/
theorem hash_notMem_tail (hs : Requested s) : chr '#' ∉ (blockBody s).tail := by
  have hhead : chr '#' ∉ headText.tail := markers_spec.2.2.2.2.2.2.2.2.1
  have hne : headText ≠ [] := by decide
  rw [blockBody, List.tail_append_of_ne_nil hne, List.mem_append, not_or]
  constructor
  · exact hhead
  · intro hmem
    obtain ⟨i, -, hi⟩ := List.mem_flatMap.mp hmem
    rw [stepText_eq, List.mem_flatMap] at hi
    obtain ⟨line, hline, hc⟩ := hi
    rcases List.mem_append.mp hc with hc | hc
    · exact (stepLines_plain hs i line hline _ hc).1 rfl
    · exact absurd hc (by decide)

theorem firstAt_endMarker (hs : Requested s) :
    firstAt endMarker (blockText s) = some (blockBody s).length := by
  obtain ⟨-, hlen, -, -, hhash, hapart, -, hend, -⟩ := markers_spec
  rw [firstAt_some_iff (by decide)]
  constructor
  · rw [At, blockText, List.drop_left, hend]
    exact List.prefix_append _ _
  · intro j hj hat
    cases j with
    | zero =>
        have hchar := hat.getElem? (by omega : 25 < endMarker.length)
        apply hapart
        rw [← hchar, Nat.zero_add, blockText, blockBody_eq, List.append_assoc,
          List.getElem?_append_left (by decide)]
    | succ j =>
        have hchar := hat.getElem? (by omega : 0 < endMarker.length)
        rw [Nat.add_zero, hhash, blockText, List.getElem?_append_left hj] at hchar
        apply hash_notMem_tail hs
        rw [← List.getElem?_tail] at hchar
        exact List.mem_of_getElem? hchar

/-- The front of a text, which no marker reaches out of. -/
structure Front (front : Bytes) : Prop where
  closed : front = [] ∨ ∃ rest, front = rest ++ [newline]
  unmarked : ∀ j, ¬At beginMarker front j

theorem Front.at_iff {front : Bytes} (h : Front front) (text : Bytes) {j : Nat}
    (hj : j < front.length) : ¬At beginMarker (front ++ text) j := by
  rcases h.closed with rfl | ⟨rest, rfl⟩
  · exact absurd hj (Nat.not_lt_zero _)
  · intro hat
    rw [List.append_assoc, List.singleton_append] at hat
    rw [List.length_append, List.length_singleton] at hj
    rcases hat.cases_of_notMem markers_spec.2.2.1 with hat | hlt
    · exact h.unmarked j (hat.append (by decide) _)
    · omega

theorem firstAt_beginMarker {front : Bytes} (h : Front front) (s : FanSettings) :
    firstAt beginMarker (front ++ blockText s) = some front.length := by
  rw [firstAt_some_iff (by decide)]
  constructor
  · rw [At, List.drop_left, blockText, blockBody_eq, List.append_assoc]
    exact List.prefix_append _ _
  · exact fun j hj => h.at_iff _ hj

theorem readPi5FanSettings_none {config : Bytes}
    (h : firstAt beginMarker config = none) :
    readPi5FanSettings config = some defaultSettings := by
  unfold readPi5FanSettings
  rw [h]

theorem readPi5FanSettings_some {config : Bytes} {start fin : Nat}
    (hstart : firstAt beginMarker config = some start)
    (hfin : firstAt endMarker (config.drop start) = some fin) :
    readPi5FanSettings config = readBlock (config.drop start) fin := by
  unfold readPi5FanSettings
  rw [hstart]
  dsimp only
  rw [hfin]

/-- A block that was written is read as its settings. -/
theorem read_blockText {front : Bytes} (h : Front front) (hs : Requested s)
    (henabled : s.enabled = true) :
    readPi5FanSettings (front ++ blockText s) = some s := by
  obtain ⟨-, -, hnone, -, -, -, -, hend, -, hmarker⟩ := markers_spec
  have hafter : (blockText s).drop ((blockBody s).length + endMarker.length) =
      [newline] := by
    rw [blockText, hend, ← List.drop_drop, List.drop_left, List.drop_left]
  have hstop : (blockText s).idxOf newline = beginMarker.length := by
    rw [blockText, blockBody_eq, List.append_assoc,
      List.idxOf_append_of_notMem hnone, List.cons_append, List.idxOf_cons_self,
      Nat.add_zero]
  have hlong : beginMarker.length < (blockBody s).length := by
    rw [blockBody_eq, List.length_append, List.length_cons]
    omega
  have hregion : ((blockText s).take (blockBody s).length).drop
      (beginMarker.length + 1) = (blockLines s).flatMap (· ++ ascii "\n") := by
    rw [blockText, List.take_left, blockBody_eq, List.append_cons]
    apply List.drop_left'
    rw [List.length_append, List.length_singleton]
  have hlines : lines ((blockLines s).flatMap (· ++ ascii "\n")) = blockLines s := by
    apply lines_flatMap
    intro line hline
    rcases List.mem_cons.mp hline with rfl | hline
    · decide
    · obtain ⟨i, -, hline⟩ := List.mem_flatMap.mp hline
      intro hmem
      exact (stepLines_plain hs i line hline _ hmem).2 rfl
  have hblock : (front ++ blockText s).drop front.length = blockText s :=
    List.drop_left
  have hfin : firstAt endMarker ((front ++ blockText s).drop front.length) =
      some (blockBody s).length := by
    rw [hblock]
    exact firstAt_endMarker hs
  rw [readPi5FanSettings_some (firstAt_beginMarker h s) hfin, hblock, readBlock,
    hafter, hmarker, hstop, if_neg (by simp), if_neg (by omega), hregion, hlines,
    foldlM_blockLines hs henabled]

/-! ## Taking the block out -/

/-- A text with its managed block: from the first marker of a begin to the end
of the line in which the next marker of an end is. -/
structure Managed (config front block behind : Bytes) : Prop where
  parts : config = front ++ (block ++ behind)
  start : firstAt beginMarker config = some front.length
  body : ∃ body line, block = body ++ line ∧
    firstAt endMarker (block ++ behind) = some body.length ∧
    ((newline ∉ line ∧ behind = []) ∨
      ∃ text, line = text ++ [newline] ∧ newline ∉ text)

/-- What remains of a text without the managed block. -/
def WithoutBlock (config rest : Bytes) : Prop :=
  (firstAt beginMarker config = none ∧ rest = config) ∨
    ∃ front block behind, Managed config front block behind ∧
      rest = front ++ behind

theorem cutBlock_none {config : Bytes} (h : firstAt beginMarker config = none) :
    cutBlock config = .ok (config, []) := by
  unfold cutBlock
  rw [h]

theorem cutBlock_some {config : Bytes} {start fin : Nat}
    (hstart : firstAt beginMarker config = some start)
    (hfin : firstAt endMarker (config.drop start) = some fin) :
    cutBlock config = .ok (config.take start,
      (config.drop (start + fin)).drop
        ((config.drop (start + fin)).idxOf newline + 1)) := by
  unfold cutBlock
  rw [hstart]
  dsimp only
  rw [hfin]

/-- A text is cut behind its first newline, or at its end. -/
theorem line_cases (text : Bytes) :
    (newline ∉ text ∧ text.drop (text.idxOf newline + 1) = []) ∨
      ∃ line, newline ∉ line ∧
        text = line ++ [newline] ++ text.drop (text.idxOf newline + 1) := by
  by_cases h : newline ∈ text
  · obtain ⟨line, rest, rfl, hline⟩ := List.eq_append_cons_of_mem h
    right
    refine ⟨line, hline, ?_⟩
    rw [List.idxOf_append_of_notMem hline, List.idxOf_cons_self, Nat.add_zero,
      List.append_cons]
    congr 1
    exact (List.drop_left' (by simp)).symm
  · left
    refine ⟨h, ?_⟩
    rw [List.idxOf_eq_length h]
    exact List.drop_eq_nil_of_le (Nat.le_succ _)

theorem cutBlock_cases (config : Bytes) :
    (∃ front behind, cutBlock config = .ok (front, behind) ∧
      WithoutBlock config (front ++ behind) ∧
      (front ++ behind).length ≤ config.length) ∨
    ∃ status text, cutBlock config = .error (.refused status text) := by
  cases hstart : firstAt beginMarker config with
  | none =>
      left
      refine ⟨config, [], cutBlock_none hstart, ?_, by simp⟩
      rw [List.append_nil]
      exact .inl ⟨hstart, rfl⟩
  | some start =>
      cases hfin : firstAt endMarker (config.drop start) with
      | none =>
          right
          unfold cutBlock
          rw [hstart]
          dsimp only
          rw [hfin]
          exact ⟨_, _, rfl⟩
      | some fin =>
          left
          refine ⟨_, _, cutBlock_some hstart hfin, ?_, ?_⟩
          · have hle := ((firstAt_some_iff (by decide)).mp hstart).1.end_le
              (by decide)
            have hle' := ((firstAt_some_iff (by decide)).mp hfin).1.end_le
              (by decide)
            rw [List.length_drop] at hle'
            have hbody : config.drop start = (config.drop start).take fin ++
                config.drop (start + fin) := by
              rw [← List.drop_drop, List.take_append_drop]
            have hlen : ((config.drop start).take fin).length = fin := by
              rw [List.length_take, List.length_drop]
              omega
            have hfront : (config.take start).length = start := by
              rw [List.length_take]
              omega
            right
            rcases line_cases (config.drop (start + fin)) with
              ⟨hline, hnil⟩ | ⟨line, hline, htext⟩
            · refine ⟨config.take start, config.drop start, [], ⟨?_, ?_, ?_⟩, ?_⟩
              · rw [List.append_nil, List.take_append_drop]
              · rw [hfront]
                exact hstart
              · refine ⟨_, _, hbody, ?_, .inl ⟨hline, rfl⟩⟩
                rw [List.append_nil, hlen]
                exact hfin
              · rw [hnil]
            · have hsplit : config.drop start =
                  (config.drop start).take fin ++ (line ++ [newline]) ++
                    (config.drop (start + fin)).drop
                      ((config.drop (start + fin)).idxOf newline + 1) := by
                rw [List.append_assoc, ← htext]
                exact hbody
              refine ⟨config.take start,
                (config.drop start).take fin ++ (line ++ [newline]), _,
                ⟨?_, ?_, ?_⟩, rfl⟩
              · rw [← hsplit, List.take_append_drop]
              · rw [hfront]
                exact hstart
              · refine ⟨_, _, rfl, ?_, .inr ⟨line, rfl, hline⟩⟩
                rw [← hsplit, hlen]
                exact hfin
          · rw [List.length_append, List.length_take, List.length_drop,
              List.length_drop]
            omega

/-- A block that was written is cut off again. -/
theorem cutBlock_blockText {front : Bytes} (h : Front front)
    (hs : Requested s) :
    cutBlock (front ++ blockText s) = .ok (front, []) := by
  obtain ⟨-, -, -, hnone, -, -, -, hend, -⟩ := markers_spec
  have hblock : (front ++ blockText s).drop front.length = blockText s :=
    List.drop_left
  have hfin : firstAt endMarker ((front ++ blockText s).drop front.length) =
      some (blockBody s).length := by
    rw [hblock]
    exact firstAt_endMarker hs
  have htail : (front ++ blockText s).drop
      (front.length + (blockBody s).length) = endText := by
    rw [← List.drop_drop, hblock, blockText, List.drop_left]
  have hstop : endText.idxOf newline + 1 = endText.length := by
    rw [hend, List.idxOf_append_of_notMem hnone, List.idxOf_cons_self,
      List.length_append, List.length_singleton, Nat.add_zero]
  rw [cutBlock_some (firstAt_beginMarker h s) hfin, htail, hstop, List.drop_length,
    List.take_left]

/-! ## Filling the buffer -/

/-- What is put between the rest of a text and the block. -/
def separator (rest : Bytes) : Bytes :=
  if rest ≠ [] ∧ rest.getLast? ≠ some newline then [newline] else []

/-- The text that is to be written. -/
def rewritten (s : FanSettings) (rest : Bytes) : Bytes :=
  if s.enabled then rest ++ separator rest ++ blockText s else rest

theorem printInto_eq {buffer : Bytes} (h : buffer.length ≤ HTTP_BODY_MAX)
    (piece : Bytes) :
    printInto buffer piece =
      if (buffer ++ piece).length < HTTP_BODY_MAX then .ok (buffer ++ piece)
      else .error tooLarge := by
  rw [List.length_append, printInto]
  by_cases hfits : buffer.length + piece.length < HTTP_BODY_MAX
  · rw [if_pos hfits, if_neg (by omega), store, if_pos (by omega)]
  · rw [if_neg hfits, if_pos (by omega)]

theorem foldlM_printInto (f : Fin 4 → Bytes) (steps : List (Fin 4))
    {buffer : Bytes} (h : buffer.length < HTTP_BODY_MAX) :
    steps.foldlM (fun buffer i => printInto buffer (f i)) buffer =
      if (buffer ++ steps.flatMap f).length < HTTP_BODY_MAX then
        .ok (buffer ++ steps.flatMap f)
      else .error tooLarge := by
  induction steps generalizing buffer with
  | nil =>
      rw [List.flatMap_nil, List.append_nil, if_pos h]
      rfl
  | cons i steps ih =>
      rw [List.foldlM_cons, printInto_eq h.le, List.flatMap_cons,
        ← List.append_assoc]
      by_cases hfits : (buffer ++ f i).length < HTTP_BODY_MAX
      · rw [if_pos hfits, ok_bind, ih hfits]
      · have hlong : ¬(buffer ++ f i ++ steps.flatMap f).length <
            HTTP_BODY_MAX := by
          rw [List.length_append]
          omega
        rw [if_neg hfits, if_neg hlong]
        rfl

theorem appendBlock_eq (s : FanSettings) {rest : Bytes}
    (h : rest.length < HTTP_BODY_MAX) :
    appendBlock s rest =
      if (rest ++ separator rest ++ blockText s).length < HTTP_BODY_MAX then
        .ok (rest ++ separator rest ++ blockText s)
      else .error tooLarge := by
  have hnewline : ascii "\n" = [newline] := by decide
  have hseparated : endLine rest = .ok (rest ++ separator rest) := by
    rw [endLine, separator, hnewline]
    split
    · rw [store, List.length_singleton, if_pos (by omega)]
    · rw [List.append_nil]
  have hle : (rest ++ separator rest).length ≤ HTTP_BODY_MAX := by
    rw [List.length_append, separator]
    split
    · rw [List.length_singleton]
      omega
    · rw [List.length_nil]
      omega
  have htext : rest ++ separator rest ++ blockText s =
      rest ++ separator rest ++ headText ++
        (List.finRange 4).flatMap (stepText s) ++ endText := by
    simp only [blockText, blockBody, List.append_assoc]
  rw [appendBlock, hseparated, ok_bind, printInto_eq hle, htext]
  by_cases hhead : (rest ++ separator rest ++ headText).length < HTTP_BODY_MAX
  · rw [if_pos hhead, ok_bind, foldlM_printInto _ _ hhead]
    by_cases hsteps : (rest ++ separator rest ++ headText ++
        (List.finRange 4).flatMap (stepText s)).length < HTTP_BODY_MAX
    · rw [if_pos hsteps, ok_bind, printInto_eq hsteps.le]
    · rw [if_neg hsteps, if_neg]
      · rfl
      · rw [List.length_append]
        omega
  · rw [if_neg hhead, if_neg]
    · rfl
    · rw [List.length_append, List.length_append]
      omega

/-- What a rewriting does, once the block is cut out. -/
theorem rewriteConfig_eq {config front behind : Bytes} (s : FanSettings)
    (hcut : cutBlock config = .ok (front, behind))
    (hlen : (front ++ behind).length < HTTP_BODY_MAX) :
    rewriteConfig config s =
      if rewritten s (front ++ behind) = [] ∨
          (rewritten s (front ++ behind)).length ≥ HTTP_BODY_MAX then
        .error tooLarge
      else .ok (rewritten s (front ++ behind)) := by
  have hsum := hlen
  rw [List.length_append] at hsum
  have hfront : store [] front = .ok front := by
    rw [store, List.length_nil, if_pos (by omega), List.nil_append]
  have hbehind : storeBehind front behind = .ok (front ++ behind) := by
    rw [storeBehind]
    split
    · next hnil => rw [hnil, List.append_nil]
    · rw [if_neg (by omega), store, if_pos (by omega)]
  have hfinish : ∀ buffer : Bytes, finish buffer =
      if buffer = [] ∨ buffer.length ≥ HTTP_BODY_MAX then .error tooLarge
      else .ok buffer := by
    intro buffer
    rw [finish]
    split
    · rfl
    · rw [store, if_pos]
      · rfl
      · rw [List.length_singleton]
        omega
  rw [rewriteConfig, hcut, ok_bind]
  dsimp only
  rw [hfront, ok_bind, hbehind, ok_bind, rewritten]
  cases s.enabled with
  | false => rw [if_neg Bool.false_ne_true, if_neg Bool.false_ne_true, hfinish]
  | true =>
      rw [if_pos rfl, if_pos rfl, appendBlock_eq s hlen]
      split
      · rw [ok_bind, hfinish]
      · next hlong =>
          rw [if_pos (.inr (Nat.not_lt.mp hlong))]
          rfl

end Audiox.Http.FanConfig
