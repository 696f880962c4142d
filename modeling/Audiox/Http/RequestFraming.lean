import Audiox.Config.Text
import Audiox.Http.Mdns
import Audiox.Support.Pattern
import Mathlib

/-!
# Framing of a request

`handleClient` looks for the end of the headers after every packet, takes the
content length from the first line of that name, and reads the body behind.
The request that is meant is a function of the stream; the packets matter where
a blank line is passed over, and where a value is blank and the number is taken
from what follows it.
-/

namespace Audiox.Http

open ByteCodec Config Pattern

def httpReqMax : Nat := 65536
def httpBodyMax : Nat := 49152
def requestHostSize : Nat := 256
def ssizeMax : Nat := 2 ^ 63 - 1
def sizeMax : Nat := 2 ^ 64 - 1

/-! ## The end of the headers -/

def crlfCrlf : Bytes := [chr '\r', chr '\n', chr '\r', chr '\n']
def lfLf : Bytes := [chr '\n', chr '\n']

def findHeaderEnd (buf : Bytes) : Option Nat :=
  if buf.length < 4 then none
  else
    match firstAt crlfCrlf buf with
    | some i => some (i + 4)
    | none => (firstAt lfLf buf).map (· + 2)

/-! ## The content length -/

/-- Whether a line starts with a name, as `strncasecmp` compares them. -/
def startsWith (name line : Bytes) : Bool :=
  name.length ≤ line.length ∧
    (line.take name.length).map toLower = name.map toLower

def contentLengthName : Bytes := ascii "Content-Length:"

def isContentLength (line : Bytes) : Bool := startsWith contentLengthName line

/-- The line at the start of a text of which `size` bytes are looked at. -/
def lineAt (text : Bytes) (size : Nat) : Bytes :=
  (text.take size).takeWhile fun c => c ≠ chr '\n'

/-- The number of bytes in front of the value of a line. -/
def valueStart (line : Bytes) : Nat :=
  15 + ((line.drop 15).takeWhile isBlank).length

/-- The loop from a line on: `text` starts there and goes on behind the
headers, of which `size` bytes are left. -/
def parseLength : Nat → Bytes → Nat → Int
  | 0, _, _ => -1
  | fuel + 1, text, size =>
      if size = 0 then -1
      else if isContentLength (lineAt text size) then
        if (strtol (text.drop (valueStart (lineAt text size)))).1 < 0 then -1
        else (strtol (text.drop (valueStart (lineAt text size)))).1
      else if (lineAt text size).length = size then -1
      else
        parseLength fuel (text.drop ((lineAt text size).length + 1))
          (size - ((lineAt text size).length + 1))

/-- `buf` holds what was received, with a NUL behind it. -/
def parseContentLength (buf : Bytes) (headerLen : Nat) : Int :=
  parseLength headerLen buf headerLen

/-! ## The headers of a plugin request -/

/-- What the loop remembers; `length` is `none` until there was one. -/
structure PluginHeaders where
  requestHost : Bytes
  hasHost : Bool
  length : Option Nat
deriving DecidableEq

def noHeaders : PluginHeaders := ⟨ascii "172.31.73.1", false, none⟩

def dropCr (line : Bytes) : Bytes :=
  if line.getLast? = some (chr '\r') then line.dropLast else line

def isHostChar (c : UInt8) : Bool :=
  (chr 'a' ≤ c && c ≤ chr 'z') || (chr 'A' ≤ c && c ≤ chr 'Z') ||
    (chr '0' ≤ c && c ≤ chr '9') || c == chr '.' || c == chr '-' ||
    c == chr ':' || c == chr '[' || c == chr ']'

/-- The digits from `count` on, in the arithmetic of `size_t`. -/
def countDigits : Bytes → Nat → Option Nat
  | [], count => some count
  | c :: rest, count =>
      if isDigit c = false ∨ count > (sizeMax - (c.toNat - 48)) / 10 then none
      else
        countDigits rest
          ((count * 10 % 2 ^ 64 + (c.toNat - 48)) % 2 ^ 64)

def headerValue (line : Bytes) (nameLength : Nat) : Bytes :=
  ((line.drop nameLength).dropWhile isBlank).rdropWhile isBlank

/-- One line; `upload` tells whether a length is asked for. -/
def pluginHeader (upload : Bool) (s : PluginHeaders) (line : Bytes) :
    Option PluginHeaders :=
  if startsWith (ascii "Transfer-Encoding:") line then none
  else if startsWith (ascii "Host:") line then
    if headerValue line 5 = [] then none
    else if s.hasHost = true ∨ requestHostSize ≤ (headerValue line 5).length
      then none
    else if (headerValue line 5).all isHostChar then
      some { s with requestHost := headerValue line 5, hasHost := true }
    else none
  else if isContentLength line = true ∧ upload = true then
    if headerValue line 15 = [] then none
    else if s.length ≠ none then none
    else
      match countDigits (headerValue line 15) 0 with
      | none => none
      | some count =>
          if count > ssizeMax then none
          else some { s with length := some count }
  else some s

/-- The headers, if they are accepted. -/
def pluginHeaders (upload : Bool) (headers : Bytes) : Option PluginHeaders :=
  match ((lines headers).map dropCr).foldlM (pluginHeader upload) noHeaders with
  | none => none
  | some s => if upload = true ∧ s.length = none then none else some s

/-! ## The request -/

/-- The first loop: what was received when the headers end, where they end,
and the packets that are left. -/
def receiveHeaders (received : Bytes) : List Bytes →
    Option (Bytes × Nat × List Bytes)
  | [] => none
  | packet :: packets =>
      if httpReqMax ≤ received.length + 1 then none
      else if packet = [] then none
      else
        match findHeaderEnd (received ++ packet) with
        | some headerEnd => some (received ++ packet, headerEnd, packets)
        | none => receiveHeaders (received ++ packet) packets

/-- The second loop, up to the end of the body. -/
def receiveBody (bodyOff contentLength : Nat) (received : Bytes) :
    List Bytes → Bytes
  | [] => received
  | packet :: packets =>
      if received.length - bodyOff < contentLength ∧
          received.length + 1 < httpReqMax then
        if packet = [] then received
        else receiveBody bodyOff contentLength (received ++ packet) packets
      else received

inductive Body where
  | tooLarge
  | incomplete
  | body (bytes : Bytes)
deriving DecidableEq

structure Frame where
  headerEnd : Nat
  contentLength : Nat
  body : Body
deriving DecidableEq

/-- The body of `contentLength` bytes in what was received. -/
def bodyIn (received : Bytes) (bodyOff contentLength : Nat) : Body :=
  if received.length - bodyOff < contentLength then .incomplete
  else .body ((received.drop bodyOff).take contentLength)

/-- The framing of `handleClient`, for the routes that keep the body in the
request buffer. -/
def frameRequest (packets : List Bytes) : Option Frame :=
  match receiveHeaders [] packets with
  | none => none
  | some (received, headerEnd, rest) =>
      some ⟨headerEnd, (parseContentLength received headerEnd).toNat,
        if httpBodyMax < (parseContentLength received headerEnd).toNat then
          .tooLarge
        else
          bodyIn (receiveBody headerEnd
            (parseContentLength received headerEnd).toNat received rest)
            headerEnd (parseContentLength received headerEnd).toNat⟩

/-! ## What is meant -/

/-- The end of the first blank line. -/
def headerEndOf (stream : Bytes) : Option Nat :=
  match firstAt crlfCrlf stream, firstAt lfLf stream with
  | some i, some j => if i < j then some (i + 4) else some (j + 2)
  | some i, none => some (i + 4)
  | none, some j => some (j + 2)
  | none, none => none

/-- The content length of a line, from its characters alone. -/
def lineLength (line : Bytes) : Nat :=
  (strtol (line.drop (valueStart line))).1.toNat

def contentLengthOf (headers : Bytes) : Nat :=
  match (lines headers).find? isContentLength with
  | none => 0
  | some line => lineLength line

/-- The request in a stream. -/
def frameOf (stream : Bytes) : Option Frame :=
  (headerEndOf stream).map fun headerEnd =>
    ⟨headerEnd, contentLengthOf (stream.take headerEnd),
      if httpBodyMax < contentLengthOf (stream.take headerEnd) then .tooLarge
      else bodyIn stream headerEnd
        (contentLengthOf (stream.take headerEnd))⟩

/-- The packets that a stream may come in. -/
def IsSplit (packets : List Bytes) (stream : Bytes) : Prop :=
  (∀ packet ∈ packets, packet ≠ []) ∧ packets.flatten = stream

/-- The first blank line is the one that is found. -/
def BlankLineFound (stream : Bytes) : Prop :=
  firstAt crlfCrlf stream = none ∧ firstAt lfLf stream = none ∨
    4 ≤ stream.length ∧ ∀ i j, firstAt lfLf stream = some j →
      firstAt crlfCrlf stream = some i → i < j

/-- The first line of the name among those that start in the first `size`
bytes, with what is behind it. -/
inductive FirstLength : Bytes → Nat → Bytes → Bytes → Prop where
  | here {line behind : Bytes} {size : Nat}
      (named : isContentLength line = true) (whole : chr '\n' ∉ line)
      (inside : line.length < size) :
      FirstLength (line ++ chr '\n' :: behind) size line behind
  | later {other text line behind : Bytes} {size : Nat}
      (different : isContentLength other = false) (whole : chr '\n' ∉ other)
      (rest : FirstLength text size line behind) :
      FirstLength (other ++ chr '\n' :: text) (other.length + 1 + size)
        line behind

/-- No positive number is behind a value that is blank. -/
def ValueEnds (stream : Bytes) : Prop :=
  ∀ headerEnd, headerEndOf stream = some headerEnd →
    ∀ line behind, FirstLength stream headerEnd line behind →
      (∀ c ∈ line.drop 15, Config.isSpace c = true) → (strtol behind).1 ≤ 0

/-! ## The first blank line -/

theorem crlfCrlf_ne_nil : crlfCrlf ≠ [] := List.cons_ne_nil _ _

theorem lfLf_ne_nil : lfLf ≠ [] := List.cons_ne_nil _ _

/-- The two blank lines do not overlap. -/
theorem lfLf_of_crlfCrlf {s : Bytes} {i j : Nat} (hi : At crlfCrlf s i)
    (hj : At lfLf s j) (hlt : i < j) : i + 3 ≤ j := by
  have hclash : ∀ k, k < 4 → ∀ l, l < 2 → i + k = j + l →
      crlfCrlf[k]? = lfLf[l]? := by
    intro k hk l hl heq
    rw [← hi.getElem? hk, ← hj.getElem? hl, heq]
  by_contra hnear
  have hcases : j = i + 1 ∨ j = i + 2 := by omega
  rcases hcases with rfl | rfl
  · have hbad := hclash 2 (by decide) 1 (by decide) rfl
    revert hbad
    decide
  · have hbad := hclash 2 (by decide) 0 (by decide) rfl
    revert hbad
    decide

section

variable {stream a b : Bytes}

/-- What is found in the front of a stream: the end of the headers, if the
front reaches that far. -/
theorem findHeaderEnd_front (h : BlankLineFound (a ++ b)) :
    findHeaderEnd a =
      (headerEndOf (a ++ b)).bind fun e =>
        if e ≤ a.length ∧ 4 ≤ a.length then some e else none := by
  rw [findHeaderEnd, headerEndOf]
  cases hcrlf : firstAt crlfCrlf (a ++ b) with
  | none =>
      have hnone := firstAt_prefix_none crlfCrlf_ne_nil hcrlf
      cases hlf : firstAt lfLf (a ++ b) with
      | none =>
          rw [hnone, firstAt_prefix_none lfLf_ne_nil hlf]
          split <;> rfl
      | some j =>
          have hfirst := firstAt_prefix lfLf_ne_nil hlf
          have htwo : lfLf.length = 2 := rfl
          rw [htwo] at hfirst
          rw [hnone, hfirst]
          by_cases hshort : a.length < 4
          · simp [hshort]
          · by_cases hle : j + 2 ≤ a.length
            · simp [hle, hshort, not_lt.mp hshort]
            · simp [hle]
  | some i =>
      have hfirst := firstAt_prefix crlfCrlf_ne_nil hcrlf
      have hfour : crlfCrlf.length = 4 := rfl
      rw [hfour] at hfirst
      have hend : (match some i, firstAt lfLf (a ++ b) with
          | some i, some j => if i < j then some (i + 4) else some (j + 2)
          | some i, none => some (i + 4)
          | none, some j => some (j + 2)
          | none, none => none) = some (i + 4) := by
        cases hlf : firstAt lfLf (a ++ b) with
        | none => rfl
        | some j =>
            have hlt := (h.resolve_left fun hnone => by
              rw [hcrlf] at hnone
              cases hnone.1).2 i j hlf hcrlf
            simp only [if_pos hlt]
      rw [hend, hfirst]
      by_cases hle : i + 4 ≤ a.length
      · have hlong : ¬a.length < 4 := by omega
        simp [hle, hlong, not_lt.mp hlong]
      · rw [if_neg hle]
        -- a blank line of two is behind the one of four
        have hnone : firstAt lfLf a = none := by
          rw [firstAt_none_iff lfLf_ne_nil]
          intro j hat
          have hj := hat.append lfLf_ne_nil b
          have hinside := hat.end_le lfLf_ne_nil
          have htwo : lfLf.length = 2 := rfl
          obtain ⟨hi, _⟩ := (firstAt_some_iff crlfCrlf_ne_nil).mp hcrlf
          cases hlf : firstAt lfLf (a ++ b) with
          | none => exact (firstAt_none_iff lfLf_ne_nil).mp hlf j hj
          | some j' =>
              have hlt := (h.resolve_left fun hnone => by
                rw [hcrlf] at hnone
                cases hnone.1).2 i j' hlf hcrlf
              obtain ⟨_, hbefore⟩ := (firstAt_some_iff lfLf_ne_nil).mp hlf
              have hle' : j' ≤ j := by
                by_contra hless
                exact hbefore j (not_le.mp hless) hj
              have hfar := lfLf_of_crlfCrlf hi hj (by omega)
              omega
        rw [hnone]
        simp [hle]

/-- Where the stream as one packet is framed right, its first blank line is
found. -/
theorem blankLineFound_of_eq (h : findHeaderEnd stream = headerEndOf stream) :
    BlankLineFound stream := by
  rw [findHeaderEnd, headerEndOf] at h
  by_cases hshort : stream.length < 4
  · left
    rw [if_pos hshort] at h
    cases hcrlf : firstAt crlfCrlf stream with
    | none =>
        cases hlf : firstAt lfLf stream with
        | none => exact ⟨rfl, rfl⟩
        | some j =>
            rw [hcrlf, hlf] at h
            cases h
    | some i =>
        have hend := ((firstAt_some_iff crlfCrlf_ne_nil).mp hcrlf).1.end_le
          crlfCrlf_ne_nil
        have hfour : crlfCrlf.length = 4 := rfl
        omega
  · right
    refine ⟨not_lt.mp hshort, ?_⟩
    intro i j hlf hcrlf
    rw [if_neg hshort, hcrlf, hlf] at h
    simp only at h
    by_contra hless
    rw [if_neg hless] at h
    have heq := Option.some.inj h
    omega

/-- A blank line ends inside the text, with a newline. -/
theorem at_end_newline {pat : Bytes} {i : Nat} (hne : pat ≠ [])
    (hat : At pat stream i) (hlast : pat.getLast? = some (chr '\n')) :
    0 < i + pat.length ∧ i + pat.length ≤ stream.length ∧
      (stream.take (i + pat.length)).getLast? = some (chr '\n') := by
  have hle := hat.end_le hne
  have hpos := List.length_pos_of_ne_nil hne
  refine ⟨by omega, hle, ?_⟩
  rw [List.getLast?_eq_getElem?, List.length_take, min_eq_left hle,
    List.getElem?_take_of_lt (by omega), Nat.add_sub_assoc hpos,
    hat.getElem? (by omega), ← hlast, List.getLast?_eq_getElem?]

theorem crlfCrlf_end {i : Nat} (h : firstAt crlfCrlf stream = some i) :
    0 < i + 4 ∧ i + 4 ≤ stream.length ∧
      (stream.take (i + 4)).getLast? = some (chr '\n') :=
  at_end_newline crlfCrlf_ne_nil ((firstAt_some_iff crlfCrlf_ne_nil).mp h).1
    rfl

theorem lfLf_end {j : Nat} (h : firstAt lfLf stream = some j) :
    0 < j + 2 ∧ j + 2 ≤ stream.length ∧
      (stream.take (j + 2)).getLast? = some (chr '\n') :=
  at_end_newline lfLf_ne_nil ((firstAt_some_iff lfLf_ne_nil).mp h).1 rfl

/-- The headers end with a newline, inside the stream. -/
theorem headerEnd_newline {e : Nat} (h : headerEndOf stream = some e) :
    0 < e ∧ e ≤ stream.length ∧
      (stream.take e).getLast? = some (chr '\n') := by
  rw [headerEndOf] at h
  split at h
  case h_1 i j hi hj =>
    split at h
    · obtain rfl := Option.some.inj h
      exact crlfCrlf_end hi
    · obtain rfl := Option.some.inj h
      exact lfLf_end hj
  case h_2 i hi _ =>
    obtain rfl := Option.some.inj h
    exact crlfCrlf_end hi
  case h_3 j _ hj =>
    obtain rfl := Option.some.inj h
    exact lfLf_end hj
  case h_4 => cases h

/-- So do those that are found. -/
theorem findHeaderEnd_newline {e : Nat} (h : findHeaderEnd stream = some e) :
    0 < e ∧ e ≤ stream.length ∧
      (stream.take e).getLast? = some (chr '\n') := by
  rw [findHeaderEnd] at h
  split at h
  case isTrue => cases h
  case isFalse =>
    split at h
    case h_1 i hi =>
      obtain rfl := Option.some.inj h
      exact crlfCrlf_end hi
    case h_2 =>
      obtain ⟨j, hj, rfl⟩ := Option.map_eq_some_iff.mp h
      exact lfLf_end hj

end

/-! ## The line of the content length -/

section

variable {text line behind : Bytes} {size fuel : Nat}

theorem length_contentLengthName : contentLengthName.length = 15 := by decide

theorem length_of_isContentLength (h : isContentLength line = true) :
    15 ≤ line.length := by
  rw [isContentLength, startsWith, decide_eq_true_iff,
    length_contentLengthName] at h
  exact h.1

theorem lineAt_eq (hwhole : chr '\n' ∉ line) (hsize : line.length < size) :
    lineAt (line ++ chr '\n' :: text) size = line := by
  have hne : ∀ c ∈ line, (decide (c ≠ chr '\n')) = true := by
    intro c hc
    rw [decide_eq_true_iff]
    rintro rfl
    exact hwhole hc
  obtain ⟨more, hmore⟩ := Nat.exists_eq_add_of_lt hsize
  rw [lineAt, List.take_append, List.take_of_length_le hsize.le, hmore,
    show line.length + more + 1 - line.length = more + 1 by omega,
    List.take_succ_cons, List.takeWhile_append_of_pos hne,
    List.takeWhile_cons_of_neg (by simp), List.append_nil]

/-- The first bytes of a text are one line without its end, or a line and what
is behind it. -/
theorem line_cases (h : (text.take size).getLast? = some (chr '\n')) :
    ∃ line rest, chr '\n' ∉ line ∧ text = line ++ chr '\n' :: rest ∧
      line.length < size := by
  have hmem : chr '\n' ∈ text.take size := List.mem_of_getLast? h
  obtain ⟨line, rest, heq, hwhole⟩ := List.eq_append_cons_of_mem hmem
  refine ⟨line, rest ++ text.drop size, hwhole, ?_, ?_⟩
  · rw [← List.cons_append, ← List.append_assoc, ← heq, List.take_append_drop]
  · have hlength := congrArg List.length heq
    rw [List.length_take, List.length_append, List.length_cons] at hlength
    omega

theorem take_line (rest : Bytes) (n : Nat) :
    (line ++ chr '\n' :: rest).take (line.length + 1 + n) =
      line ++ chr '\n' :: rest.take n := by
  rw [List.take_append, List.take_of_length_le (by omega),
    show line.length + 1 + n - line.length = n + 1 by omega,
    List.take_succ_cons]

theorem drop_line (rest : Bytes) :
    (line ++ chr '\n' :: rest).drop (line.length + 1) = rest := by
  rw [List.drop_append, List.drop_of_length_le (by omega),
    Nat.add_sub_cancel_left]
  rfl

/-- The headers have a line of the name, or none of their lines is one. -/
theorem exists_firstLength_or (hend : size = 0 ∨
      (text.take size).getLast? = some (chr '\n'))
    (hinside : size ≤ text.length) (hfuel : size ≤ fuel) :
    (∃ line behind, FirstLength text size line behind) ∨
      ((lines (text.take size)).find? isContentLength = none ∧
        parseLength fuel text size = -1) := by
  induction fuel generalizing text size with
  | zero =>
      right
      obtain rfl : size = 0 := by omega
      exact ⟨rfl, rfl⟩
  | succ fuel ih =>
      rcases hend with rfl | hlast
      · right
        exact ⟨rfl, by rw [parseLength, if_pos rfl]⟩
      · obtain ⟨line, rest, hwhole, rfl, hlength⟩ := line_cases hlast
        by_cases hnamed : isContentLength line = true
        · exact .inl ⟨line, rest, .here hnamed hwhole hlength⟩
        · obtain ⟨more, rfl⟩ := Nat.exists_eq_add_of_lt hlength
          have hsize : line.length + more + 1 = line.length + 1 + more := by
            omega
          rw [hsize] at hlast hinside hfuel ⊢
          rw [take_line] at hlast ⊢
          have hdifferent : isContentLength line = false := by
            simpa using hnamed
          have hrest : more = 0 ∨
              (rest.take more).getLast? = some (chr '\n') := by
            cases htake : rest.take more with
            | nil =>
                left
                have hnone := congrArg List.length htake
                rw [List.length_take, List.length_nil] at hnone
                rw [List.length_append, List.length_cons] at hinside
                omega
            | cons c taken =>
                right
                rw [htake] at hlast
                rw [List.getLast?_append_cons, List.getLast?_cons_cons]
                  at hlast
                exact hlast
          have hroom : more ≤ rest.length := by
            rw [List.length_append, List.length_cons] at hinside
            omega
          rcases ih hrest hroom (by omega) with
            ⟨found, behind, hfound⟩ | ⟨hnone, hparse⟩
          · exact .inl ⟨found, behind, .later hdifferent hwhole hfound⟩
          · right
            have hline := @lineAt_eq rest line (line.length + 1 + more) hwhole
              (by omega)
            constructor
            · rw [lines_line_append hwhole, List.find?_cons_of_neg hnamed]
              exact hnone
            · rw [parseLength, if_neg (by omega), hline, if_neg hnamed,
                if_neg (by omega), drop_line, Nat.add_sub_cancel_left]
              exact hparse

/-- The value of a line that is followed by more. -/
theorem drop_valueStart (hnamed : isContentLength line = true)
    (more : Bytes) :
    (line ++ more).drop (valueStart line) =
      line.drop (valueStart line) ++ more := by
  apply List.drop_append_of_le_length
  have hlong := length_of_isContentLength hnamed
  have hblank := (List.takeWhile_prefix (l := line.drop 15)
    isBlank).length_le
  rw [List.length_drop] at hblank
  rw [valueStart]
  omega

/-- A number as the function gives it. -/
def checked (v : Int) : Int :=
  if v < 0 then -1 else v

theorem toNat_checked (v : Int) : (checked v).toNat = v.toNat := by
  rw [checked]
  split
  case isTrue hneg =>
    rw [Int.toNat_of_nonpos hneg.le]
    rfl
  case isFalse => rfl

/-- What the loop makes of the first line of the name. -/
theorem FirstLength.parse (h : FirstLength text size line behind)
    (hfuel : size ≤ fuel) :
    (lines (text.take size)).find? isContentLength = some line ∧
      parseLength fuel text size = checked (strtol
        (line.drop (valueStart line) ++ chr '\n' :: behind)).1 := by
  induction h generalizing fuel with
  | @here line behind size named whole inside =>
      obtain ⟨more, rfl⟩ := Nat.exists_eq_add_of_lt inside
      have hsize : line.length + more + 1 = line.length + 1 + more := by omega
      obtain ⟨fuel, rfl⟩ : ∃ n, fuel = n + 1 :=
        Nat.exists_eq_succ_of_ne_zero (by omega)
      rw [hsize, take_line, lines_line_append whole,
        List.find?_cons_of_pos named]
      refine ⟨rfl, ?_⟩
      rw [parseLength, if_neg (by omega), lineAt_eq whole (by omega),
        if_pos named, drop_valueStart named]
      rfl
  | @later other text line behind size different whole rest ih =>
      obtain ⟨fuel, rfl⟩ : ∃ n, fuel = n + 1 :=
        Nat.exists_eq_succ_of_ne_zero (by omega)
      have hnot : ¬isContentLength other = true := by simp [different]
      have hpos : 0 < size := by
        cases rest with
        | here named whole inside => omega
        | later different whole rest => omega
      obtain ⟨hfind, hparse⟩ := @ih fuel (by omega)
      rw [take_line, lines_line_append whole, List.find?_cons_of_neg hnot]
      refine ⟨hfind, ?_⟩
      rw [parseLength, if_neg (by omega), lineAt_eq whole (by omega),
        if_neg hnot, if_neg (by omega), drop_line, Nat.add_sub_cancel_left]
      exact hparse

/-- A longer text has the line with more behind it. -/
theorem FirstLength.append (h : FirstLength text size line behind)
    (more : Bytes) : FirstLength (text ++ more) size line (behind ++ more) := by
  induction h with
  | here named whole inside =>
      rw [List.append_assoc, List.cons_append]
      exact .here named whole inside
  | later different whole rest ih =>
      rw [List.append_assoc, List.cons_append]
      exact .later different whole ih

theorem FirstLength.named (h : FirstLength text size line behind) :
    isContentLength line = true := by
  induction h with
  | here named whole inside => exact named
  | later different whole rest ih => exact ih

theorem drop_valueStart_eq (line : Bytes) :
    line.drop (valueStart line) = (line.drop 15).dropWhile isBlank := by
  rw [valueStart, ← List.drop_drop]
  generalize line.drop 15 = rest
  induction rest with
  | nil => rfl
  | cons c rest ih =>
      by_cases hc : isBlank c = true
      · rw [List.takeWhile_cons_of_pos hc, List.dropWhile_cons_of_pos hc,
          List.length_cons, List.drop_succ_cons]
        exact ih
      · rw [List.takeWhile_cons_of_neg hc, List.dropWhile_cons_of_neg hc]
        rfl

theorem isSpace_of_isBlank {c : UInt8} (h : isBlank c = true) :
    Config.isSpace c = true := by
  rw [isBlank, Bool.or_eq_true, beq_iff_eq, beq_iff_eq] at h
  rcases h with rfl | rfl
  · decide
  · decide

/-- A value is blank if its line is, behind the name. -/
theorem value_blank_iff (line : Bytes) :
    (line.drop (valueStart line)).dropWhile Config.isSpace = [] ↔
      ∀ c ∈ line.drop 15, Config.isSpace c = true := by
  rw [drop_valueStart_eq, List.dropWhile_eq_nil_iff]
  constructor
  · intro h c hc
    rw [← @List.takeWhile_append_dropWhile _ isBlank (line.drop 15)] at hc
    rcases List.mem_append.mp hc with hblank | hrest
    · exact isSpace_of_isBlank (List.mem_takeWhile_imp hblank)
    · exact h c hrest
  · exact fun h c hc => h c ((List.dropWhile_suffix _).subset hc)

/-- A value that is not blank ends with its line. -/
theorem value_of_line (more : Bytes)
    (h : ¬∀ c ∈ line.drop 15, Config.isSpace c = true) :
    (strtol (line.drop (valueStart line) ++ chr '\n' :: more)).1.toNat =
      lineLength line := by
  rw [lineLength, strtol_append_of_stop ((value_blank_iff line).not.mpr h)]
  intro c hc
  obtain rfl := Option.some.inj hc
  decide

/-- A blank value is the number behind its line. -/
theorem value_of_blank (more : Bytes)
    (h : ∀ c ∈ line.drop 15, Config.isSpace c = true) :
    (strtol (line.drop (valueStart line) ++ chr '\n' :: more)).1 =
        (strtol more).1 ∧ lineLength line = 0 := by
  have hspace : ∀ c ∈ line.drop (valueStart line) ++ [chr '\n'],
      Config.isSpace c = true := by
    intro c hc
    rcases List.mem_append.mp hc with hline | hend
    · rw [drop_valueStart_eq] at hline
      exact h c ((List.dropWhile_suffix _).subset hline)
    · rw [List.mem_singleton.mp hend]
      decide
  constructor
  · rw [← List.singleton_append, ← List.append_assoc,
      strtol_of_space hspace more]
  · have hblank := fun c hc => hspace c (List.mem_append_left _ hc)
    have hnone := strtol_of_space hblank []
    rw [List.append_nil, strtol_nil] at hnone
    rw [lineLength, hnone]
    rfl

end

/-! ## The packets -/

section

variable {stream received : Bytes} {packets : List Bytes} {e : Nat}

/-- The end of the headers is found in any packets, with nothing lost. -/
theorem receiveHeaders_spec (hfits : stream.length < httpReqMax)
    (hline : BlankLineFound stream)
    (hsplit : received ++ packets.flatten = stream)
    (hpackets : ∀ packet ∈ packets, packet ≠ [])
    (hnot : findHeaderEnd received = none) :
    (headerEndOf stream = none ∧ receiveHeaders received packets = none) ∨
    ∃ e received' rest, headerEndOf stream = some e ∧
      receiveHeaders received packets = some (received', e, rest) ∧
      received' ++ rest.flatten = stream ∧ e ≤ received'.length ∧
      ∀ packet ∈ rest, packet ≠ [] := by
  induction packets generalizing received with
  | nil =>
      rw [List.flatten_nil, List.append_nil] at hsplit
      subst hsplit
      left
      refine ⟨?_, rfl⟩
      have hfound := @findHeaderEnd_front received []
        (by rw [List.append_nil]; exact hline)
      rw [List.append_nil, hnot] at hfound
      cases hend : headerEndOf received with
      | none => rfl
      | some e =>
          have hinside := (headerEnd_newline hend).2.1
          have hfour : 4 ≤ received.length := by
            rcases hline with ⟨hcrlf, hlf⟩ | ⟨hfour, _⟩
            · rw [headerEndOf, hcrlf, hlf] at hend
              cases hend
            · exact hfour
          rw [hend, Option.bind_some, if_pos ⟨hinside, hfour⟩] at hfound
          cases hfound
  | cons packet packets ih =>
      rw [List.flatten_cons, ← List.append_assoc] at hsplit
      have hpos := List.length_pos_of_ne_nil
        (hpackets packet List.mem_cons_self)
      have hroom : ¬httpReqMax ≤ received.length + 1 := by
        have hlength := congrArg List.length hsplit
        rw [List.length_append, List.length_append] at hlength
        omega
      have hrest := fun other hother =>
        hpackets other (List.mem_cons_of_mem _ hother)
      rw [receiveHeaders, if_neg hroom,
        if_neg (hpackets packet List.mem_cons_self)]
      cases hfound : findHeaderEnd (received ++ packet) with
      | none => exact ih hsplit hrest hfound
      | some found =>
          right
          have hfront := @findHeaderEnd_front (received ++ packet)
            packets.flatten (by rw [hsplit]; exact hline)
          rw [hsplit, hfound] at hfront
          obtain ⟨e, he, hif⟩ := Option.bind_eq_some_iff.mp hfront.symm
          split at hif
          case isTrue hinside =>
            obtain rfl := Option.some.inj hif
            exact ⟨e, received ++ packet, packets, he, rfl, hsplit, hinside.1,
              hrest⟩
          case isFalse => cases hif

/-- The body is read as far as it goes. -/
theorem receiveBody_spec (hfits : stream.length < httpReqMax)
    (hsplit : received ++ packets.flatten = stream)
    (hpackets : ∀ packet ∈ packets, packet ≠ []) (contentLength : Nat)
    (he : e ≤ received.length) :
    ∃ rest, receiveBody e contentLength received packets ++ rest = stream ∧
      e ≤ (receiveBody e contentLength received packets).length ∧
      (rest = [] ∨ contentLength ≤
        (receiveBody e contentLength received packets).length - e) := by
  induction packets generalizing received with
  | nil => exact ⟨[], hsplit, he, .inl rfl⟩
  | cons packet packets ih =>
      have hne := hpackets packet List.mem_cons_self
      have hpos := List.length_pos_of_ne_nil hne
      have hlength := congrArg List.length hsplit
      rw [List.flatten_cons, List.length_append, List.length_append]
        at hlength
      rw [receiveBody]
      by_cases hmore : received.length - e < contentLength
      · rw [if_pos ⟨hmore, by omega⟩, if_neg hne]
        refine ih ?_ (fun other hother =>
          hpackets other (List.mem_cons_of_mem _ hother)) ?_
        · rw [← hsplit, List.flatten_cons, List.append_assoc]
        · rw [List.length_append]
          omega
      · rw [if_neg fun hboth => hmore hboth.1]
        exact ⟨(packet :: packets).flatten, hsplit, he, .inr (not_lt.mp hmore)⟩

/-- The body in what was read is the body in the stream. -/
theorem bodyIn_front {rest : Bytes} {contentLength : Nat}
    (hsplit : received ++ rest = stream) (he : e ≤ received.length)
    (henough : rest = [] ∨ contentLength ≤ received.length - e) :
    bodyIn received e contentLength = bodyIn stream e contentLength := by
  rcases henough with rfl | henough
  · rw [List.append_nil] at hsplit
    rw [hsplit]
  · have hlength := congrArg List.length hsplit
    rw [List.length_append] at hlength
    rw [bodyIn, bodyIn, if_neg (by omega), if_neg (by omega), ← hsplit,
      List.drop_append_of_le_length he, List.take_append_of_le_length]
    rw [List.length_drop]
    exact henough

/-- The content length that is read in the front of a stream. -/
theorem parseContentLength_front {more : Bytes}
    (hsplit : received ++ more = stream) (he : e ≤ received.length)
    (hend : headerEndOf stream = some e) (hvalue : ValueEnds stream) :
    (parseContentLength received e).toNat =
      contentLengthOf (stream.take e) := by
  have hnewline := (headerEnd_newline hend).2.2
  have htake : received.take e = stream.take e := by
    rw [← hsplit, List.take_append_of_le_length he]
  rw [contentLengthOf, parseContentLength]
  rcases @exists_firstLength_or received e e
      (.inr (by rw [htake]; exact hnewline)) he le_rfl with
    ⟨line, behind, hfirst⟩ | ⟨hnone, hparse⟩
  · obtain ⟨hfind, hparse⟩ := hfirst.parse le_rfl
    have hwhole := hfirst.append more
    rw [hsplit] at hwhole
    rw [htake] at hfind
    rw [hparse, hfind, toNat_checked]
    simp only
    by_cases hblank : ∀ c ∈ line.drop 15, Config.isSpace c = true
    · obtain ⟨hnumber, hzero⟩ := value_of_blank behind hblank
      have hnonpos := hvalue e hend line (behind ++ more) hwhole hblank
      rw [hnumber, hzero,
        Int.toNat_of_nonpos (strtol_prefix_nonpos hnonpos)]
    · exact value_of_line behind hblank
  · rw [htake] at hnone
    rw [hparse, hnone]
    rfl

/-- A stream whose first blank line is found and whose value ends is framed
alike in any packets. -/
theorem frameRequest_eq (hfits : stream.length < httpReqMax)
    (hline : BlankLineFound stream) (hvalue : ValueEnds stream)
    (hsplit : IsSplit packets stream) :
    frameRequest packets = frameOf stream := by
  obtain ⟨hpackets, hflatten⟩ := hsplit
  rcases @receiveHeaders_spec stream [] packets hfits hline hflatten hpackets
      rfl with
    ⟨hend, hnone⟩ | ⟨e, received, rest, hend, hfound, hrest, he, hpackets'⟩
  · rw [frameRequest, hnone, frameOf, hend]
    rfl
  · have hlength := parseContentLength_front hrest he hend hvalue
    obtain ⟨left, hleft, hle, henough⟩ := receiveBody_spec hfits hrest
      hpackets' (contentLengthOf (stream.take e)) he
    rw [frameRequest, hfound, frameOf, hend, Option.map_some]
    simp only [hlength]
    rw [bodyIn_front hleft hle henough]

/-- A stream that is framed right as one packet. -/
theorem framed_of_one (hfits : stream.length < httpReqMax)
    (h : ∀ packets, IsSplit packets stream →
      frameRequest packets = frameOf stream) :
    BlankLineFound stream ∧ ValueEnds stream := by
  by_cases hempty : stream = []
  · subst hempty
    refine ⟨.inl ⟨rfl, rfl⟩, ?_⟩
    intro e hend
    cases hend
  · have hone := h [stream] ⟨by simpa using hempty, by simp⟩
    have hpos := List.length_pos_of_ne_nil hempty
    have hroom : ¬httpReqMax ≤ ([] : Bytes).length + 1 := by decide
    rw [frameRequest, receiveHeaders, if_neg hroom, if_neg hempty,
      List.nil_append, frameOf] at hone
    cases hfound : findHeaderEnd stream with
    | none =>
        rw [hfound] at hone
        simp only [receiveHeaders] at hone
        cases hend : headerEndOf stream with
        | none =>
            refine ⟨blankLineFound_of_eq (hfound.trans hend.symm), ?_⟩
            intro e he
            rw [hend] at he
            cases he
        | some e =>
            rw [hend] at hone
            cases hone
    | some e =>
        rw [hfound] at hone
        simp only at hone
        cases hend : headerEndOf stream with
        | none =>
            rw [hend] at hone
            cases hone
        | some e' =>
            rw [hend, Option.map_some] at hone
            obtain ⟨he, hlength, -⟩ := Frame.mk.inj (Option.some.inj hone)
            subst he
            refine ⟨blankLineFound_of_eq (hfound.trans hend.symm), ?_⟩
            intro e' he' line behind hfirst hblank
            rw [hend] at he'
            obtain rfl := Option.some.inj he'
            obtain ⟨hfind, hparse⟩ :=
              @FirstLength.parse stream line behind e e hfirst le_rfl
            obtain ⟨hnumber, hzero⟩ := value_of_blank behind hblank
            rw [parseContentLength, hparse, toNat_checked, contentLengthOf,
              hfind, hnumber] at hlength
            simp only [hzero] at hlength
            exact Int.toNat_eq_zero.mp hlength

end

/-! ## The headers of an upload -/

section

variable {line : Bytes} {s s' : PluginHeaders} {n : Nat}

theorem isDigit_range {c : UInt8} (h : isDigit c = true) :
    c.toNat - 48 ≤ 9 := by
  have hbounds := isDigit_bounds h
  omega

/-- The arithmetic of the digits does not overflow. -/
theorem countDigits_eq {digits : Bytes} {count : Nat}
    (h : countDigits digits count = some n) :
    (∀ c ∈ digits, isDigit c = true) ∧
      n = digits.foldl (fun n c => n * 10 + (c.toNat - 48)) count := by
  induction digits generalizing count with
  | nil => exact ⟨by simp, (Option.some.inj h).symm⟩
  | cons c rest ih =>
      rw [countDigits] at h
      split at h
      case isTrue => cases h
      case isFalse hok =>
        obtain ⟨hdigit, hsmall⟩ := not_or.mp hok
        have hdigit : isDigit c = true := by simpa using hdigit
        have hrange := isDigit_range hdigit
        have hten : count * 10 + (c.toNat - 48) < 2 ^ 64 := by
          rw [sizeMax] at hsmall
          omega
        rw [Nat.mod_eq_of_lt (show count * 10 < 2 ^ 64 by omega),
          Nat.mod_eq_of_lt hten] at h
        obtain ⟨hrest, hn⟩ := ih h
        refine ⟨?_, hn⟩
        intro d hd
        rcases List.mem_cons.mp hd with rfl | hd
        · exact hdigit
        · exact hrest d hd

/-- The value of a line as an upload wants it. -/
def IsLength (value : Bytes) (n : Nat) : Prop :=
  value ≠ [] ∧ (∀ c ∈ value, isDigit c = true) ∧ n = decimal value ∧
    n ≤ ssizeMax

/-- A line of the content length is not one of the host. -/
theorem not_host_of_isContentLength (h : isContentLength line = true) :
    startsWith (ascii "Host:") line = false := by
  rw [isContentLength, startsWith, decide_eq_true_iff] at h
  rw [startsWith, decide_eq_false_iff_not]
  rintro ⟨_, hhost⟩
  have hcut := congrArg (List.take 5) h.2
  rw [← List.map_take, List.take_take] at hcut
  have hfive : (ascii "Host:").length = 5 := by decide
  have hmin : min 5 contentLengthName.length = 5 := by decide
  rw [hfive] at hhost
  rw [hmin, hhost] at hcut
  revert hcut
  decide

/-- One line: only one of the content length changes the length, and only if
there was none. -/
theorem pluginHeader_length (h : pluginHeader true s line = some s') :
    (isContentLength line = false ∧ s'.length = s.length) ∨
    (isContentLength line = true ∧ s.length = none ∧
      ∃ n, s'.length = some n ∧ IsLength (headerValue line 15) n) := by
  rw [pluginHeader] at h
  split at h
  case isTrue => cases h
  case isFalse =>
    by_cases hhost : startsWith (ascii "Host:") line = true
    · left
      constructor
      · by_contra hnamed
        have hnot := @not_host_of_isContentLength line (by simpa using hnamed)
        rw [hhost] at hnot
        cases hnot
      · rw [if_pos hhost] at h
        split_ifs at h
        rw [← Option.some.inj h]
    · rw [if_neg hhost] at h
      by_cases hnamed : isContentLength line = true
      · right
        rw [if_pos ⟨hnamed, rfl⟩] at h
        split_ifs at h with hempty hsome
        cases hcount : countDigits (headerValue line 15) 0 with
        | none =>
            rw [hcount] at h
            cases h
        | some count =>
            rw [hcount] at h
            simp only at h
            split_ifs at h with hlarge
            obtain ⟨hdigits, hn⟩ := countDigits_eq hcount
            refine ⟨hnamed, not_not.mp hsome, count, ?_, hempty, hdigits, hn,
              not_lt.mp hlarge⟩
            rw [← Option.some.inj h]
      · left
        rw [if_neg fun hboth => hnamed hboth.1] at h
        rw [← Option.some.inj h]
        exact ⟨by simpa using hnamed, rfl⟩

/-- The lines that are accepted have one content length at most. -/
theorem foldlM_length {headers : List Bytes}
    (h : headers.foldlM (pluginHeader true) s = some s') :
    (headers.filter isContentLength = [] ∧ s'.length = s.length) ∨
    (s.length = none ∧ ∃ line n,
      headers.filter isContentLength = [line] ∧ s'.length = some n ∧
        IsLength (headerValue line 15) n) := by
  induction headers generalizing s with
  | nil =>
      obtain rfl := Option.some.inj h
      exact .inl ⟨rfl, rfl⟩
  | cons line headers ih =>
      rw [List.foldlM_cons] at h
      obtain ⟨t, hstep, hrest⟩ := Option.bind_eq_some_iff.mp h
      rcases pluginHeader_length hstep with
        ⟨hother, hkept⟩ | ⟨hnamed, hnone, n, hn, hlength⟩
      · rw [List.filter_cons_of_neg (by simp [hother]), ← hkept]
        exact ih hrest
      · right
        rw [List.filter_cons_of_pos hnamed]
        rcases ih hrest with ⟨hfilter, hkept⟩ | ⟨hempty, _⟩
        · exact ⟨hnone, line, n, by rw [hfilter], hkept.trans hn, hlength⟩
        · rw [hn] at hempty
          cases hempty

/-- The return is behind the name. -/
theorem isContentLength_dropCr (line : Bytes) :
    isContentLength (dropCr line) = isContentLength line := by
  rw [dropCr]
  split
  case isFalse => rfl
  case isTrue hcr =>
    obtain ⟨front, rfl⟩ := List.getLast?_eq_some_iff.mp hcr
    rw [List.dropLast_concat]
    by_cases hlong : 15 ≤ front.length
    · have hmore : 15 ≤ (front ++ [chr '\r']).length := by
        rw [List.length_append]
        omega
      rw [isContentLength, isContentLength, startsWith, startsWith,
        length_contentLengthName, List.take_append_of_le_length hlong]
      simp only [hlong, hmore, true_and]
    · have hfront : isContentLength front = false := by
        by_contra hnamed
        exact hlong (length_of_isContentLength (by simpa using hnamed))
      rw [hfront]
      by_contra hnamed
      have hnamed : isContentLength (front ++ [chr '\r']) = true := by
        simpa using Ne.symm hnamed
      have hlength := length_of_isContentLength hnamed
      rw [List.length_append, List.length_singleton] at hlength
      rw [isContentLength, startsWith, decide_eq_true_iff,
        length_contentLengthName, List.take_of_length_le (by
          rw [List.length_append, List.length_singleton]
          omega), List.map_append] at hnamed
      -- the last character would be the colon
      have hlast := congrArg List.getLast? hnamed.2
      rw [List.map_singleton, List.getLast?_concat] at hlast
      revert hlast
      decide

theorem headerValue_eq (line : Bytes) (n : Nat) :
    ∃ blanks, (line.drop n).dropWhile isBlank =
        headerValue line n ++ blanks ∧
      ∀ c ∈ blanks, isBlank c = true := by
  refine ⟨((line.drop n).dropWhile isBlank).rtakeWhile isBlank, ?_, ?_⟩
  · rw [headerValue, List.rdropWhile_append_rtakeWhile]
  · intro c hc
    exact List.mem_rtakeWhile_imp hc

/-- A number in front of anything but a digit. -/
theorem strtol_digits_append {digits tail : Bytes} (hne : digits ≠ [])
    (hdigits : ∀ c ∈ digits, isDigit c = true)
    (hsmall : decimal digits ≤ ssizeMax)
    (htail : ∀ c ∈ tail.head?, isDigit c = false) :
    (strtol (digits ++ tail)).1 = decimal digits := by
  have hstart : digits.dropWhile Config.isSpace ≠ [] := by
    obtain ⟨c, rest, rfl⟩ := List.exists_cons_of_ne_nil hne
    rw [List.dropWhile_cons_of_neg
      (by simp [(isBlank_of_isDigit (hdigits c (by simp))).2.2])]
    exact List.cons_ne_nil _ _
  rw [strtol_append_of_stop hstart htail,
    strtol_digits hne hdigits (by rw [ssizeMax] at hsmall; omega)]

end

/-- The number that is read from a line with a value that an upload wants. -/
theorem strtol_of_isLength {line : Bytes} {n : Nat}
    (hnamed : isContentLength line = true)
    (hvalue : IsLength (headerValue (dropCr line) 15) n) (behind : Bytes) :
    (strtol (line.drop (valueStart line) ++ chr '\n' :: behind)).1 = n := by
  obtain ⟨hne, hdigits, rfl, hsmall⟩ := hvalue
  have hnamed' := hnamed
  rw [← isContentLength_dropCr] at hnamed'
  have hlong := length_of_isContentLength hnamed'
  obtain ⟨cr, hcr, hline⟩ : ∃ cr : Bytes, (cr = [] ∨ cr = [chr '\r']) ∧
      line = dropCr line ++ cr := by
    rw [dropCr]
    split
    case isTrue hlast =>
      obtain ⟨front, rfl⟩ := List.getLast?_eq_some_iff.mp hlast
      exact ⟨[chr '\r'], .inr rfl, by rw [List.dropLast_concat]⟩
    case isFalse => exact ⟨[], .inl rfl, (List.append_nil _).symm⟩
  obtain ⟨blanks, hblanks, hall⟩ := headerValue_eq (dropCr line) 15
  have hfull : ((dropCr line).drop 15).dropWhile isBlank ≠ [] := by
    rw [hblanks]
    exact List.append_ne_nil_of_left_ne_nil hne _
  have htext : line.drop (valueStart line) =
      headerValue (dropCr line) 15 ++ (blanks ++ cr) := by
    rw [drop_valueStart_eq]
    conv_lhs => rw [hline]
    rw [List.drop_append_of_le_length hlong, List.dropWhile_append, hblanks]
    simp [hne]
  rw [htext, List.append_assoc]
  refine strtol_digits_append hne hdigits hsmall ?_
  intro c hc
  cases blanks with
  | nil =>
      rcases hcr with rfl | rfl
      · obtain rfl := Option.some.inj hc
        decide
      · obtain rfl := Option.some.inj hc
        decide
  | cons b blanks =>
      obtain rfl := Option.some.inj hc
      have hblank := hall b List.mem_cons_self
      by_contra hdigit
      rw [(isBlank_of_isDigit (c := b) (by simpa using hdigit)).1] at hblank
      cases hblank

/-- The headers that are accepted for an upload have one content length, the
one that is read from them without a check. -/
theorem upload_length {buf : Bytes} {e : Nat} {s : PluginHeaders}
    (hend : findHeaderEnd buf = some e)
    (h : pluginHeaders true (buf.take e) = some s) :
    ∃ line n, (lines (buf.take e)).filter isContentLength = [line] ∧
      IsLength (headerValue (dropCr line) 15) n ∧ s.length = some n ∧
      parseContentLength buf e = n := by
  obtain ⟨hpos, hinside, hnewline⟩ := findHeaderEnd_newline hend
  rw [pluginHeaders] at h
  split at h
  case h_1 => cases h
  case h_2 t hlines =>
    split at h
    case isTrue => cases h
    case isFalse hsome =>
      obtain rfl := Option.some.inj h
      have hlength : t.length ≠ none := fun hnone => hsome ⟨rfl, hnone⟩
      rcases foldlM_length hlines with ⟨_, hkept⟩ | ⟨_, cut, n, hfilter, hn,
        hvalue⟩
      · exact absurd hkept hlength
      · rw [List.filter_map] at hfilter
        obtain ⟨line, hline, rfl⟩ := List.map_eq_singleton_iff.mp hfilter
        have hnamed : (isContentLength ∘ dropCr) = isContentLength :=
          funext isContentLength_dropCr
        rw [hnamed] at hline
        refine ⟨line, n, hline, hvalue, hn, ?_⟩
        rcases @exists_firstLength_or buf e e (.inr hnewline) hinside le_rfl
          with ⟨found, behind, hfirst⟩ | ⟨hnone, _⟩
        · obtain ⟨hfind, hparse⟩ := hfirst.parse le_rfl
          rw [← List.head?_filter, hline] at hfind
          obtain rfl := Option.some.inj hfind
          rw [parseContentLength, hparse,
            strtol_of_isLength hfirst.named hvalue behind]
          exact if_neg (by omega)
        · rw [← List.head?_filter, hline] at hnone
          cases hnone

/-! ## The framing -/

/-- A stream that fits is framed by its first blank line and the first line of
the content length, in whatever packets it comes, exactly if that blank line is
the one that is found, and no number is behind a value that is blank.  For an
upload the two parsers read the same length. -/
theorem request_framing (stream : Bytes) (hfits : stream.length < httpReqMax) :
    ((∀ packets, IsSplit packets stream →
        frameRequest packets = frameOf stream) ↔
      BlankLineFound stream ∧ ValueEnds stream) ∧
    ∀ (buf : Bytes) (e : Nat) (s : PluginHeaders),
      findHeaderEnd buf = some e → pluginHeaders true (buf.take e) = some s →
      ∃ line n, (lines (buf.take e)).filter isContentLength = [line] ∧
        IsLength (headerValue (dropCr line) 15) n ∧ s.length = some n ∧
        parseContentLength buf e = n := by
  constructor
  · constructor
    · exact framed_of_one hfits
    · rintro ⟨hline, hvalue⟩ packets hsplit
      exact frameRequest_eq hfits hline hvalue hsplit
  · intro buf e s hend h
    exact upload_length hend h

/-- The upload of two bytes. -/
def smallUpload : Bytes :=
  ascii "PUT /api/plugins/install HTTP/1.1\r\nContent-Length: 2\r\n\r\nok"

theorem request_framing_small :
    (∀ packets, IsSplit packets smallUpload →
      frameRequest packets = frameOf smallUpload) ∧
    ∃ line n,
      (lines (smallUpload.take 56)).filter isContentLength = [line] ∧
      IsLength (headerValue (dropCr line) 15) n ∧ some 2 = some n ∧
      parseContentLength smallUpload 56 = n := by
  have hframing := request_framing smallUpload (by decide)
  constructor
  · refine hframing.1.mpr ⟨?_, ?_⟩
    · have hlf : firstAt lfLf smallUpload = none := by decide
      refine .inr ⟨by decide, ?_⟩
      intro i j hj
      rw [hlf] at hj
      cases hj
    · intro e he line behind hfirst hblank
      have hend : headerEndOf smallUpload = some 56 := by decide
      rw [hend] at he
      obtain rfl := Option.some.inj he
      have hfind := (hfirst.parse le_rfl).1
      have hline : (lines (smallUpload.take 56)).find? isContentLength =
          some (ascii "Content-Length: 2\r") := by decide
      rw [hline] at hfind
      obtain rfl := Option.some.inj hfind
      exact absurd (hblank (chr '2') (by decide)) (by decide)
  · exact hframing.2 smallUpload 56 ⟨ascii "172.31.73.1", false, some 2⟩
      (by decide) (by decide)

/-- The blank line is found if a packet ends behind it, and passed over for a
later one otherwise. -/
theorem framing_depends_on_packets :
    ¬∀ (stream : Bytes) (packets packets' : List Bytes),
      stream.length < httpReqMax → IsSplit packets stream →
      IsSplit packets' stream →
      frameRequest packets = frameRequest packets' := by
  intro hall
  have hsame := hall (ascii "GET / HTTP/1.0\n\nab\r\n\r\n")
    [ascii "GET / HTTP/1.0\n\nab\r\n\r\n"]
    [ascii "GET / HTTP/1.0\n\n", ascii "ab\r\n\r\n"]
    (by decide) ⟨by decide, by decide⟩
    ⟨by decide, by decide⟩
  revert hsame
  decide

/-- The number behind a blank value is in the body, if it is there yet. -/
example :
    frameRequest [ascii "GET / HTTP/1.0\nContent-Length:\n\n3ab"] ≠
      frameRequest [ascii "GET / HTTP/1.0\nContent-Length:\n\n",
        ascii "3ab"] := by
  decide

end Audiox.Http
