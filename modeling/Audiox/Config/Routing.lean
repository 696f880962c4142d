import Audiox.Audio.Graph
import Audiox.Config.Schema
import Mathlib

/-!
# The routing file

The routes of the audio graph and the flag of the routing helper are kept in a
text file, one `edge=` line for a route.  A scene replaces the whole file.

The state of the file is its content, or `none` when it is missing.
-/

namespace Audiox.Config

open ByteCodec

def routeTextMax : Nat := 256
def routeCountMax : Nat := audioGraphMaxEdges
def routingSchemaHeader : Bytes := ascii "# audiox routing v"
def routingSchemaVersion : Nat := 1

/-! ## Reading -/

/-- The routes of the lines of a routing file, behind those found already. -/
def collectRoutes : List Bytes → List Bytes → List Bytes
  | routes, [] => routes
  | routes, line :: lines =>
      let text := trim line
      if text = [] ∨ text.head? = some (chr '#') then collectRoutes routes lines
      else if ¬ascii "edge=" <+: text then collectRoutes routes lines
      else if routes.length ≥ routeCountMax then routes
      else collectRoutes (routes ++ [text.drop 5]) lines

def loadRoutes (file : Option Bytes) : Option (List Bytes) :=
  match file with
  | none => some []
  | some text =>
      if (checkConfigTextSchema routingSchemaHeader routingSchemaVersion
          text).refused then none
      else some (collectRoutes [] (fgets routeTextMax text))

def isHelperLine (line : Bytes) : Bool :=
  trim line ∈ [ascii "node=routing_helper", ascii "helper=routing_helper"]

def hasRoutingHelper (file : Option Bytes) : Bool :=
  match file with
  | none => false
  | some text =>
      if (checkConfigTextSchema routingSchemaHeader routingSchemaVersion
          text).refused then false
      else (fgets routeTextMax text).any isHelperLine

def getRouteCount (file : Option Bytes) : Int :=
  match loadRoutes file with
  | none => -1
  | some routes => routes.length

/-- The route that is copied into a buffer of a size. -/
def getRoute (file : Option Bytes) (index : Int) (outSize : Nat) : Bytes :=
  match loadRoutes file with
  | none => []
  | some routes =>
      if index < 0 then []
      else copyBounded outSize (routes[index.toNat]?.getD [])

/-! ## Writing -/

/-- Which calls succeed while the routing file is replaced. -/
structure ReplaceCalls where
  schemaRead : Bool
  pendingOpened : Bool
  flushed : Bool
  synced : Bool
  closed : Bool
  renamed : Bool

def edgeLine (route : Bytes) : Bytes :=
  ascii "edge=" ++ route ++ ascii "\n"

/-- The text that is written for a scene. -/
def sceneRoutingText (routes : List Bytes) (helper : Bool) : Bytes :=
  routingSchemaHeader ++ showDecimal routingSchemaVersion ++ ascii "\n" ++
    (if helper then ascii "node=routing_helper\n" else []) ++
    routes.flatMap edgeLine

/-- Whether the replacement succeeds, and the file behind it. -/
def replaceSceneRoutes (calls : ReplaceCalls) (file : Option Bytes)
    (routes : List Bytes) (helper : Bool) : Bool × Option Bytes :=
  let schema :=
    if calls.schemaRead then
      checkConfigTextFileSchema routingSchemaHeader routingSchemaVersion file
    else .ioError
  if routes.length > routeCountMax then (false, file)
  else if schema.refused then (false, file)
  else if ¬calls.pendingOpened then (false, file)
  else if calls.flushed && calls.synced && calls.closed && calls.renamed then
    (true, some (sceneRoutingText routes helper))
  else (false, file)

/-! ## Valid routes -/

/-- A text without control characters. -/
def textValid (text : Bytes) (max : Nat) (empty : Bool) : Bool :=
  (empty || text ≠ []) && text.length ≤ max &&
    text.all fun c => !(c < 32 || c == 127)

/-- The routes that a valid scene can have. -/
def routesValid (routes : List Bytes) : Bool :=
  routes.length ≤ audioGraphMaxEdges &&
    routes.all fun route => textValid route 255 false

/-- A route that a line of the routing file can hold. -/
def FitsLine (route : Bytes) : Prop :=
  route.length ≤ 250 ∧ route.getLast? ≠ some (chr ' ')

instance (route : Bytes) : Decidable (FitsLine route) :=
  inferInstanceAs (Decidable (_ ∧ _))

theorem textValid_iff {text : Bytes} {max : Nat} {empty : Bool} :
    textValid text max empty = true ↔
      (empty = true ∨ text ≠ []) ∧ text.length ≤ max ∧
        ∀ c ∈ text, ¬c < 32 ∧ c ≠ 127 := by
  simp [textValid, and_assoc, UInt8.not_lt]

/-- A control character is in no valid text. -/
theorem notMem_of_textValid {text : Bytes} {max : Nat} {empty : Bool}
    (h : textValid text max empty = true) {c : UInt8} (hc : c < 32) :
    c ∉ text := by
  intro hmem
  exact ((textValid_iff.mp h).2.2 c hmem).1 hc

/-! ## The lines of a routing file -/

/-- The pieces in which the line of a route is read. -/
def routePieces (route : Bytes) : List Bytes :=
  if route.length < 250 then [edgeLine route]
  else [ascii "edge=" ++ route.take 250, route.drop 250 ++ ascii "\n"]

theorem pieces_edgeLine {route : Bytes} (h : textValid route 255 false = true)
    (rest : Bytes) :
    piecesFrom 255 [] (edgeLine route ++ rest) =
      routePieces route ++ piecesFrom 255 [] rest := by
  have hline : chr '\n' ∉ route := notMem_of_textValid h (by decide)
  have hlen := (textValid_iff.mp h).2.1
  have hkey : (ascii "edge=").length = 5 := by decide
  have hkeyLine : chr '\n' ∉ ascii "edge=" := by decide
  have hstop : ascii "\n" = [chr '\n'] := by decide
  by_cases hshort : route.length < 250
  · have hnl : chr '\n' ∉ ascii "edge=" ++ route := by
      rw [List.mem_append, not_or]
      exact ⟨hkeyLine, hline⟩
    have hsplit : edgeLine route ++ rest =
        (ascii "edge=" ++ route) ++ chr '\n' :: rest := by
      simp only [edgeLine, hstop, List.append_assoc, List.singleton_append]
    have hfits : ([] : Bytes).length + (ascii "edge=" ++ route).length < 255 := by
      rw [List.length_append, hkey, List.length_nil]
      omega
    rw [hsplit, piecesFrom_line hnl [] rest hfits, routePieces, if_pos hshort,
      edgeLine, hstop]
    rfl
  · have hnl : chr '\n' ∉ ascii "edge=" ++ route.take 250 := by
      rw [List.mem_append, not_or]
      exact ⟨hkeyLine, fun hmem => hline (List.mem_of_mem_take hmem)⟩
    have hrest : chr '\n' ∉ route.drop 250 :=
      fun hmem => hline (List.mem_of_mem_drop hmem)
    have hsplit : edgeLine route ++ rest =
        (ascii "edge=" ++ route.take 250) ++
          (route.drop 250 ++ chr '\n' :: rest) := by
      rw [edgeLine, hstop]
      conv_lhs => rw [← List.take_append_drop 250 route]
      simp only [List.append_assoc, List.singleton_append]
    have hfull :
        ([] : Bytes).length + (ascii "edge=" ++ route.take 250).length =
          255 := by
      rw [List.length_append, hkey, List.length_nil, List.length_take]
      omega
    have hfits : ([] : Bytes).length + (route.drop 250).length < 255 := by
      rw [List.length_nil, List.length_drop]
      omega
    have hne : ascii "edge=" ++ route.take 250 ≠ [] := by
      rw [← List.length_pos_iff, List.length_append, hkey]
      omega
    rw [hsplit, piecesFrom_full hnl hne [] _ hfull,
      piecesFrom_line hrest [] rest hfits, routePieces, if_neg hshort, hstop]
    rfl

theorem pieces_edgeLines {routes : List Bytes}
    (h : ∀ route ∈ routes, textValid route 255 false = true) :
    piecesFrom 255 [] (routes.flatMap edgeLine) =
      routes.flatMap routePieces := by
  induction routes with
  | nil => rfl
  | cons route routes ih =>
      rw [List.flatMap_cons, List.flatMap_cons,
        pieces_edgeLine (h route (by simp)),
        ih fun other hother => h other (List.mem_cons_of_mem _ hother)]

/-- The lines in front of the routes. -/
def headLines (helper : Bool) : List Bytes :=
  (routingSchemaHeader ++ showDecimal routingSchemaVersion ++ ascii "\n") ::
    if helper then [ascii "node=routing_helper\n"] else []

theorem zero_notMem_routePieces {route piece : Bytes}
    (h : textValid route 255 false = true) (hpiece : piece ∈ routePieces route) :
    0 ∉ piece := by
  have hroute : 0 ∉ route := notMem_of_textValid h (by decide)
  have htake : 0 ∉ route.take 250 :=
    fun hmem => hroute (List.mem_of_mem_take hmem)
  have hdrop : 0 ∉ route.drop 250 :=
    fun hmem => hroute (List.mem_of_mem_drop hmem)
  have hkey : 0 ∉ ascii "edge=" := by decide
  have hstop : 0 ∉ ascii "\n" := by decide
  rw [routePieces] at hpiece
  split at hpiece
  · rw [List.mem_singleton.mp hpiece, edgeLine]
    simp only [List.mem_append, not_or]
    exact ⟨⟨hkey, hroute⟩, hstop⟩
  · rw [List.mem_cons, List.mem_singleton] at hpiece
    rcases hpiece with rfl | rfl
    · rw [List.mem_append, not_or]
      exact ⟨hkey, htake⟩
    · rw [List.mem_append, not_or]
      exact ⟨hdrop, hstop⟩

theorem fgets_sceneRoutingText {routes : List Bytes}
    (h : ∀ route ∈ routes, textValid route 255 false = true) (helper : Bool) :
    fgets routeTextMax (sceneRoutingText routes helper) =
      headLines helper ++ routes.flatMap routePieces := by
  have hhead : piecesFrom 255 [] (sceneRoutingText routes helper) =
      headLines helper ++ piecesFrom 255 [] (routes.flatMap edgeLine) := by
    have hfirst : routingSchemaHeader ++ showDecimal routingSchemaVersion ++
        ascii "\n" = ascii "# audiox routing v1" ++ [chr '\n'] := by decide
    have hnode : ascii "node=routing_helper\n" =
        ascii "node=routing_helper" ++ [chr '\n'] := by decide
    rw [sceneRoutingText, headLines, hfirst, hnode]
    cases helper
    · simp only [Bool.false_eq_true, if_false, List.append_nil,
        List.append_assoc, List.cons_append, List.nil_append]
      rw [piecesFrom_line (by decide) [] _ (by decide)]
      rfl
    · simp only [if_true, List.append_assoc, List.cons_append,
        List.nil_append]
      rw [piecesFrom_line (by decide) [] _ (by decide),
        piecesFrom_line (by decide) [] _ (by decide)]
      rfl
  have hcstr : ∀ piece ∈ headLines helper ++ routes.flatMap routePieces,
      cstr piece = id piece := by
    intro piece hpiece
    apply cstr_eq_self
    rcases List.mem_append.mp hpiece with hpiece | hpiece
    · have hfree : ∀ helper, ∀ piece ∈ headLines helper, 0 ∉ piece := by decide
      exact hfree helper piece hpiece
    · obtain ⟨route, hroute, hmem⟩ := List.mem_flatMap.mp hpiece
      exact zero_notMem_routePieces (h route hroute) hmem
  rw [fgets, routeTextMax, show 256 - 1 = 255 by rfl, hhead, pieces_edgeLines h,
    List.map_congr_left hcstr, List.map_id]

/-! ## What the lines are read as -/

/-- The route that a line adds. -/
def routeOf (line : Bytes) : List Bytes :=
  if ascii "edge=" <+: trim line then [(trim line).drop 5] else []

theorem collectRoutes_eq (lines : List Bytes) {routes : List Bytes}
    (h : routes.length ≤ routeCountMax) :
    collectRoutes routes lines =
      (routes ++ lines.flatMap routeOf).take routeCountMax := by
  induction lines generalizing routes with
  | nil => rw [collectRoutes, List.flatMap_nil, List.append_nil,
      List.take_of_length_le h]
  | cons line lines ih =>
      rw [collectRoutes, List.flatMap_cons]
      by_cases hedge : ascii "edge=" <+: trim line
      · have hskip :
            ¬(trim line = [] ∨ (trim line).head? = some (chr '#')) := by
          obtain ⟨rest, hrest⟩ := hedge
          rw [← hrest, not_or]
          constructor
          · exact List.cons_ne_nil _ _
          · show ¬some (chr 'e') = some (chr '#')
            decide
        have hof : routeOf line = [(trim line).drop 5] := if_pos hedge
        simp only [if_neg hskip, hedge, not_true_eq_false, if_false, hof]
        by_cases hfull : routes.length ≥ routeCountMax
        · rw [if_pos hfull, List.take_append_of_le_length hfull,
            List.take_of_length_le h]
        · have hroom : (routes ++ [(trim line).drop 5]).length ≤
              routeCountMax := by
            rw [List.length_append, List.length_singleton]
            omega
          rw [if_neg hfull, ih hroom, List.append_assoc]
      · have hof : routeOf line = [] := if_neg hedge
        simp only [hedge, not_false_eq_true, if_true, hof, ite_self,
          List.nil_append]
        exact ih h

theorem trimLeft_edge (text : Bytes) :
    trimLeft (ascii "edge=" ++ text) = ascii "edge=" ++ text := by
  apply trimLeft_eq_self_iff.mpr
  intro c hc
  have he : chr 'e' = c := by simpa [ascii] using hc
  rw [← he]
  decide

/-- Only the end of a route line is trimmed. -/
theorem trim_edge (text : Bytes) :
    trim (ascii "edge=" ++ text) = ascii "edge=" ++ trimRight text := by
  have hkey : trimRight (ascii "edge=") = ascii "edge=" := by decide
  rw [trim, trimLeft_edge]
  by_cases hblank : ∀ c ∈ text, isTrailing c = true
  · have hempty : trimRight text = [] := by
      rw [← List.nil_append text, trimRight_append_trailing hblank]
      rfl
    rw [trimRight_append_trailing hblank, hempty, hkey, List.append_nil]
  · push Not at hblank
    obtain ⟨c, hmem, hc⟩ := hblank
    rw [trimRight, trimRight, List.rdropWhile, List.rdropWhile,
      List.reverse_append, List.dropWhile_append, if_neg]
    · rw [List.reverse_append, List.reverse_reverse]
    · rw [List.isEmpty_iff, List.dropWhile_eq_nil_iff]
      intro hall
      exact hc (hall c (List.mem_reverse.mpr hmem))

theorem routeOf_edge (text : Bytes) :
    routeOf (ascii "edge=" ++ text) = [trimRight text] := by
  rw [routeOf, trim_edge, if_pos (List.prefix_append _ _),
    List.drop_left' (by decide)]

/-- What a written route is read as: its first 250 bytes, trimmed, and a second
route if the rest looks like one. -/
def routeReadBack (route : Bytes) : List Bytes :=
  trimRight (route.take 250) :: routeOf (route.drop 250 ++ ascii "\n")

theorem routeOf_pieces (route : Bytes) :
    (routePieces route).flatMap routeOf = routeReadBack route := by
  have hnone : routeOf (ascii "\n") = [] := by decide
  rw [routePieces, routeReadBack]
  split_ifs with hshort
  · have hnl : ∀ c ∈ ascii "\n", isTrailing c = true := by
      intro c hc
      rw [List.mem_singleton.mp hc]
      decide
    have hstop := trimRight_append_trailing hnl route
    rw [List.flatMap_singleton, edgeLine, List.append_assoc, routeOf_edge,
      hstop, List.take_of_length_le (by omega), List.drop_of_length_le
        (by omega), List.nil_append, hnone]
  · rw [List.flatMap_cons, List.flatMap_singleton, routeOf_edge]
    rfl

/-- Which routes are not changed by cutting and trimming. -/
theorem trimRight_take_iff {route : Bytes}
    (h : textValid route 255 false = true) :
    trimRight (route.take 250) = route ↔ FitsLine route := by
  have hfront : trimRight (route.take 250) <+: route.take 250 :=
    List.rdropWhile_prefix _ _
  have hlast : ∀ c, route.getLast? = some c →
      (isTrailing c = true ↔ c = chr ' ') := by
    intro c hc
    have hmem := List.mem_of_getLast? hc
    have hne : ∀ d : UInt8, d < 32 → (c == d) = false := by
      intro d hd
      apply beq_false_of_ne
      rintro rfl
      exact notMem_of_textValid h hd hmem
    simp [isTrailing, hne (chr '\n') (by decide), hne (chr '\r') (by decide),
      hne (chr '\t') (by decide)]
  constructor
  · intro heq
    have hlen : route.length ≤ 250 := by
      have hle := hfront.length_le
      rw [heq, List.length_take] at hle
      omega
    rw [List.take_of_length_le hlen] at heq
    constructor
    · exact hlen
    · intro hspace
      have hstop := trimRight_eq_self_iff.mp heq _ hspace
      exact absurd hstop (by decide)
  · rintro ⟨hlen, hspace⟩
    rw [List.take_of_length_le hlen]
    apply trimRight_eq_self_iff.mpr
    intro c hc
    rw [Bool.eq_false_iff, Ne, hlast c hc]
    rintro rfl
    exact hspace hc

/-! ## The helper and the schema -/

/-- The pieces of a route: an edge line, and what is left of a long one. -/
theorem piece_cases {route piece : Bytes}
    (h : textValid route 255 false = true) (hpiece : piece ∈ routePieces route) :
    (∃ text, piece = ascii "edge=" ++ text) ∨ piece.length ≤ 6 := by
  have hlen := (textValid_iff.mp h).2.1
  rw [routePieces] at hpiece
  split at hpiece
  · left
    refine ⟨route ++ ascii "\n", ?_⟩
    rw [List.mem_singleton.mp hpiece, edgeLine, List.append_assoc]
  · rw [List.mem_cons, List.mem_singleton] at hpiece
    rcases hpiece with rfl | rfl
    · exact .inl ⟨_, rfl⟩
    · right
      have hnl : (ascii "\n").length = 1 := by decide
      rw [List.length_append, List.length_drop, hnl]
      omega

/-- No line of a route is a header. -/
theorem piece_not_header {route piece : Bytes}
    (h : textValid route 255 false = true) (hpiece : piece ∈ routePieces route) :
    ¬routingSchemaHeader <+: trimLeft piece := by
  have hheader : routingSchemaHeader.length = 18 := by decide
  rcases piece_cases h hpiece with ⟨text, rfl⟩ | hshort
  · rw [trimLeft_edge]
    rintro ⟨rest, hrest⟩
    have hhead := congrArg List.head? hrest
    have hfirst : some (chr '#') = some (chr 'e') := hhead
    exact absurd hfirst (by decide)
  · intro hfront
    have hle := hfront.length_le
    have hcut : (trimLeft piece).length ≤ piece.length :=
      (List.dropWhile_suffix _).length_le
    omega

/-- No line of a route names the helper. -/
theorem piece_not_helper {route piece : Bytes}
    (h : textValid route 255 false = true) (hpiece : piece ∈ routePieces route) :
    isHelperLine piece = false := by
  have hnode : (ascii "node=routing_helper").length = 19 := by decide
  have hhelper : (ascii "helper=routing_helper").length = 21 := by decide
  rw [Bool.eq_false_iff, isHelperLine, Ne, decide_eq_true_eq, List.mem_cons,
    List.mem_singleton, not_or]
  rcases piece_cases h hpiece with ⟨text, rfl⟩ | hshort
  · rw [trim_edge]
    constructor
    · intro heq
      have hfirst : some (chr 'e') = some (chr 'n') := congrArg List.head? heq
      exact absurd hfirst (by decide)
    · intro heq
      have hfirst : some (chr 'e') = some (chr 'h') := congrArg List.head? heq
      exact absurd hfirst (by decide)
  · have hcut := length_trim_le piece
    constructor
    · intro heq
      have hlen := congrArg List.length heq
      omega
    · intro heq
      have hlen := congrArg List.length heq
      omega

theorem schema_sceneRoutingText {routes : List Bytes}
    (h : ∀ route ∈ routes, textValid route 255 false = true) (helper : Bool) :
    checkConfigTextSchema routingSchemaHeader routingSchemaVersion
      (sceneRoutingText routes helper) = .supported := by
  have hbehind : ∀ line ∈ (if helper then [ascii "node=routing_helper\n"]
      else []) ++ routes.flatMap routePieces,
      ¬routingSchemaHeader <+: trimLeft line := by
    intro line hline
    rcases List.mem_append.mp hline with hline | hline
    · cases helper
      · exact absurd hline List.not_mem_nil
      · rw [if_pos rfl, List.mem_singleton] at hline
        rw [hline]
        decide
    · obtain ⟨route, hroute, hmem⟩ := List.mem_flatMap.mp hline
      exact piece_not_header (h route hroute) hmem
  have hscan := scanSchema_of_none hbehind (some routingSchemaVersion)
  have hfirst : routingSchemaHeader <+: trimLeft (routingSchemaHeader ++
      showDecimal routingSchemaVersion ++ ascii "\n") := by decide
  have hversion : schemaVersion ((trimLeft (routingSchemaHeader ++
      showDecimal routingSchemaVersion ++ ascii "\n")).drop
        routingSchemaHeader.length) = some routingSchemaVersion := by decide
  have hfgets := fgets_sceneRoutingText h helper
  rw [routeTextMax] at hfgets
  rw [checkConfigTextSchema, hfgets, headLines, List.cons_append, scanSchema,
    if_pos hfirst]
  simp only [Option.isSome_none, Bool.false_eq_true, if_false, hversion, hscan,
    le_refl, if_true]

theorem loadRoutes_sceneRoutingText {routes : List Bytes}
    (h : ∀ route ∈ routes, textValid route 255 false = true) (helper : Bool) :
    loadRoutes (some (sceneRoutingText routes helper)) =
      some ((routes.flatMap routeReadBack).take routeCountMax) := by
  have hhead : ∀ helper, (headLines helper).flatMap routeOf = [] := by decide
  rw [loadRoutes, schema_sceneRoutingText h]
  simp only [ConfigTextSchemaStatus.refused, Bool.false_eq_true, if_false]
  rw [fgets_sceneRoutingText h, collectRoutes_eq _ (by simp),
    List.flatMap_append, hhead, List.nil_append, List.nil_append,
    List.flatMap_assoc]
  simp only [routeOf_pieces]

theorem hasRoutingHelper_sceneRoutingText {routes : List Bytes}
    (h : ∀ route ∈ routes, textValid route 255 false = true) (helper : Bool) :
    hasRoutingHelper (some (sceneRoutingText routes helper)) = helper := by
  have hhead : ∀ helper, (headLines helper).any isHelperLine = helper := by
    decide
  have hroutes : (routes.flatMap routePieces).any isHelperLine = false := by
    rw [List.any_eq_false]
    intro piece hpiece
    obtain ⟨route, hroute, hmem⟩ := List.mem_flatMap.mp hpiece
    rw [piece_not_helper (h route hroute) hmem]
    exact Bool.false_ne_true
  rw [hasRoutingHelper, schema_sceneRoutingText h]
  simp only [ConfigTextSchemaStatus.refused, Bool.false_eq_true, if_false]
  rw [fgets_sceneRoutingText h, List.any_append, hhead, hroutes, Bool.or_false]

/-! ## What is read back -/

/-- Read routes that are those written have not been cut, trimmed or split. -/
theorem fits_of_read {routes : List Bytes}
    (h : ∀ route ∈ routes, textValid route 255 false = true) {room : Nat}
    (hroom : routes.length ≤ room)
    (hread : (routes.flatMap routeReadBack).take room = routes) :
    ∀ route ∈ routes, FitsLine route := by
  induction routes generalizing room with
  | nil => simp
  | cons route routes ih =>
      obtain ⟨room, rfl⟩ : ∃ n, room = n + 1 := by
        rw [List.length_cons] at hroom
        exact ⟨room - 1, by omega⟩
      have hvalid := h route (by simp)
      rw [List.flatMap_cons, routeReadBack, List.cons_append,
        List.take_succ_cons, List.cons_eq_cons] at hread
      obtain ⟨hcut, hrest⟩ := hread
      have hfits := (trimRight_take_iff hvalid).mp hcut
      -- a route that fits leaves no second piece
      have hnone : routeOf (route.drop 250 ++ ascii "\n") = [] := by
        rw [List.drop_of_length_le hfits.1]
        decide
      rw [hnone, List.nil_append] at hrest
      rw [List.length_cons] at hroom
      have hothers := ih (fun other hother => h other
        (List.mem_cons_of_mem _ hother)) (by omega) hrest
      intro other hother
      rcases List.mem_cons.mp hother with rfl | hother
      · exact hfits
      · exact hothers other hother

theorem read_of_fits {routes : List Bytes}
    (h : ∀ route ∈ routes, textValid route 255 false = true)
    (hfits : ∀ route ∈ routes, FitsLine route) :
    routes.flatMap routeReadBack = routes := by
  have hone : ∀ route ∈ routes, routeReadBack route = [route] := by
    intro route hroute
    have hnone : routeOf (ascii "\n") = [] := by decide
    rw [routeReadBack, (trimRight_take_iff (h route hroute)).mpr (hfits route hroute),
      List.drop_of_length_le (hfits route hroute).1, List.nil_append, hnone]
  rw [List.flatMap_congr hone, List.flatMap_singleton']

theorem replaceSceneRoutes_ok {calls : ReplaceCalls} {before after : Option Bytes}
    {routes : List Bytes} {helper : Bool}
    (h : replaceSceneRoutes calls before routes helper = (true, after)) :
    after = some (sceneRoutingText routes helper) := by
  rw [replaceSceneRoutes] at h
  split_ifs at h
  all_goals simp_all

/-- A route comes back exactly if its line is neither cut nor trimmed: after a
successful replacement the count, every route and the helper flag are read as
they were given exactly if every route has at most 250 bytes and no space at
its end. -/
theorem replaceSceneRoutes_persists_iff {routes : List Bytes} {helper : Bool}
    (hvalid : routesValid routes = true) {calls : ReplaceCalls}
    {before after : Option Bytes}
    (hok : replaceSceneRoutes calls before routes helper = (true, after)) :
    (getRouteCount after = routes.length ∧
      (∀ (i : Nat) (hi : i < routes.length) (outSize : Nat), 256 ≤ outSize →
        getRoute after i outSize = routes[i]) ∧
      hasRoutingHelper after = helper) ↔
      ∀ route ∈ routes, FitsLine route := by
  rw [routesValid, Bool.and_eq_true, decide_eq_true_eq, List.all_eq_true]
    at hvalid
  obtain ⟨hcount, hvalid⟩ := hvalid
  have hafter := replaceSceneRoutes_ok hok
  have hload := loadRoutes_sceneRoutingText hvalid helper
  rw [← hafter] at hload
  constructor
  · rintro ⟨hlen, hget, -⟩
    rw [getRouteCount, hload] at hlen
    have hlen' : ((routes.flatMap routeReadBack).take routeCountMax).length =
        routes.length := Int.ofNat.inj hlen
    apply fits_of_read hvalid hcount
    apply List.ext_getElem hlen'
    intro i hi hroute
    have hroute' := hget i hroute
      (256 + ((routes.flatMap routeReadBack).take routeCountMax)[i].length)
      (by omega)
    rw [getRoute, hload] at hroute'
    simp only [Int.toNat_natCast, List.getElem?_eq_getElem hi,
      Option.getD_some] at hroute'
    rw [if_neg (by omega), copyBounded_eq_self (by omega)] at hroute'
    exact hroute'
  · intro hfits
    rw [read_of_fits hvalid hfits, List.take_of_length_le] at hload
    · have hhelper : hasRoutingHelper after = helper := by
        rw [hafter]
        exact hasRoutingHelper_sceneRoutingText hvalid helper
      refine ⟨by rw [getRouteCount, hload], ?_, hhelper⟩
      intro i hi outSize hsize
      have hlen := (textValid_iff.mp (hvalid _ (List.getElem_mem hi))).2.1
      rw [getRoute, hload]
      simp only [Int.toNat_natCast, List.getElem?_eq_getElem hi,
        Option.getD_some]
      rw [if_neg (by omega)]
      exact copyBounded_eq_self (by omega)
    · exact hcount

/-- A replacement in which every call succeeds. -/
def allCalls : ReplaceCalls :=
  ⟨true, true, true, true, true, true⟩

theorem replaceSceneRoutes_persists_iff_short :
    (getRouteCount (some (sceneRoutingText [ascii "fx_1->out"] true)) = 1 ∧
      (∀ (i : Nat) (hi : i < [ascii "fx_1->out"].length) (outSize : Nat),
        256 ≤ outSize →
        getRoute (some (sceneRoutingText [ascii "fx_1->out"] true)) i outSize =
          [ascii "fx_1->out"][i]) ∧
      hasRoutingHelper (some (sceneRoutingText [ascii "fx_1->out"] true)) =
        true) ↔
      ∀ route ∈ [ascii "fx_1->out"], FitsLine route :=
  have hvalid : routesValid [ascii "fx_1->out"] = true := by decide
  have hok : replaceSceneRoutes allCalls none [ascii "fx_1->out"] true =
      (true, some (sceneRoutingText [ascii "fx_1->out"] true)) := by rfl
  replaceSceneRoutes_persists_iff hvalid hok

/-- A route of 251 bytes is cut, and a space at the end of one is trimmed. -/
theorem long_route_cut :
    let routes := [List.replicate 251 (chr 'a'), ascii "fx_1->out "]
    let after := (replaceSceneRoutes allCalls none routes false).2
    routesValid routes = true ∧
      (replaceSceneRoutes allCalls none routes false).1 = true ∧
      getRoute after 0 256 = List.replicate 250 (chr 'a') ∧
      getRoute after 1 256 = ascii "fx_1->out" ∧
      getRoute after 0 256 ≠ routes[0] ∧ getRoute after 1 256 ≠ routes[1] := by
  decide +kernel

end Audiox.Config
