/-
  File:      Stowplan/Domain/WorkspaceLinks.lean
  Subject:   LINKS INTO A WORKSPACE (app-url.ts): the path of a view and what is read back from it.

  An identifier stands in one segment, escaped, behind a readable label and an `@` where it has a
  label. Escaping throws at a surrogate that stands alone. The path then passes the URL parser,
  which resolves dot segments: an identifier that is a dot or two dots survives behind a label
  only, since escaping leaves dots as they are.

  * `workspacePath`, `parseAppUrl`, `workspaceReturnTo`;
  * `workspacePath_none`: no path is made where an identifier it names is no text;
  * `Carries`: what a segment says of the identifier that it was made for;
  * `leadsTo_shown`: the path leads to what it was made for, dots apart;
  * `not_leadsTo_dot`: a workspace whose identifier is a dot, without a label, is never reached;
  * `workspacePath_leadsTo`: the two as one equivalence, for paths and for return paths.
-/
import Stowplan.Domain.AppUrl

namespace Stowplan

/-! ## 1. Views and routes -/

/-- `WORKSPACE_VIEWS`. -/
inductive WorkspaceView where
  | capture | spaces | inventory | plan | activity | settings | access
  deriving DecidableEq

/-- The segment of a view. -/
def WorkspaceView.text : WorkspaceView → String
  | .capture => "capture"
  | .spaces => "spaces"
  | .inventory => "inventory"
  | .plan => "plan"
  | .activity => "activity"
  | .settings => "settings"
  | .access => "access"

/-- `WORKSPACE_VIEWS`. -/
def workspaceViews : List WorkspaceView :=
  [.capture, .spaces, .inventory, .plan, .activity, .settings, .access]

/-- `DEFAULT_WORKSPACE_VIEW`. -/
def defaultWorkspaceView : WorkspaceView := .capture

/-- `workspaceView(value)`. -/
def workspaceView (value : Option (List Char)) : WorkspaceView :=
  ((value.bind fun text => workspaceViews.find? fun view => view.text.toList == text)).getD
    defaultWorkspaceView

/-- `view === "capture" || view === "spaces" || view === "inventory"`. -/
def WorkspaceView.showsLocations (view : WorkspaceView) : Bool :=
  view == .capture || view == .spaces || view == .inventory

/-- `AppRoute`. -/
inductive AppRoute where
  | home
  | workspaceList
  | workspace (itemId locationId : Option JsString) (view : WorkspaceView) (workspaceId : JsString)
  deriving DecidableEq

/-- A label: `none` is undefined, `some none` is null. -/
abbrev RouteLabel : Type := Option (Option JsString)

/-- What a path is made of. -/
structure WorkspacePathInput where
  itemId : Option JsString := none
  itemLabel : RouteLabel := none
  locationId : Option JsString := none
  locationLabel : RouteLabel := none
  view : WorkspaceView
  workspaceId : JsString
  workspaceLabel : RouteLabel := none

/-- `WORKSPACE_PATH_SEGMENT`. -/
def workspacePathSegment : List Char := "workspaces".toList

/-- `LOCATION_PATH_SEGMENT`. -/
def locationPathSegment : List Char := "locations".toList

/-- `ITEM_PATH_SEGMENT`. -/
def itemPathSegment : List Char := "items".toList

/-- `WORKSPACE_LIST_PATH`. -/
def workspaceListPath : List Char := "/workspaces".toList

/-- `MAX_ROUTE_SLUG_LENGTH`. -/
def maxRouteSlugLength : Nat := 64

/-- A string that counts as true: it is there and not empty. -/
def presentText (text : Option JsString) : Option JsString := text.filter fun s => !s.isEmpty

/-! ## 2. Segments -/

/-- The tables of Unicode: compatibility decomposition, lower case and the categories. -/
class CharacterData where
  nfkd : List Char → List Char
  toLowerCase : List Char → List Char
  isMark : Char → Bool
  isLetter : Char → Bool
  isNumber : Char → Bool

/-- Each run of characters outside a set as one dash. -/
def dashRuns (keep : Char → Bool) : Bool → List Char → List Char
  | _, [] => []
  | inRun, c :: rest =>
    if keep c then c :: dashRuns keep false rest
    else if inRun then dashRuns keep true rest
    else '-' :: dashRuns keep true rest

/-- The text without the dashes at its end. -/
def trimDashesEnd (text : List Char) : List Char :=
  (text.reverse.dropWhile fun c => c == '-').reverse

section Segments

variable [CharacterData]

/-- `readableSlug(value, fallback)`. -/
def readableSlug (value : JsString) (fallback : String) : List Char :=
  -- a surrogate that stands alone is no letter: it becomes a dash, as what replaces it does
  let unmarked := (CharacterData.toLowerCase (CharacterData.nfkd (toWellFormed value))).filter
    fun c => !CharacterData.isMark c
  let dashed := dashRuns (fun c => CharacterData.isLetter c || CharacterData.isNumber c) false
    unmarked
  let normalized := trimDashesEnd (dashed.dropWhile fun c => c == '-')
  let shortened := trimDashesEnd (normalized.take maxRouteSlugLength)
  if shortened.isEmpty then fallback.toList else shortened

/-- `encodeURIComponent(string)`, which throws at a surrogate that stands alone. -/
def encodeUnits (string : JsString) : Option (List Char) :=
  if isWellFormed string then some (encodeURIComponent (toWellFormed string)) else none

/-- `encodedSegment(segment, label)`, which throws where the segment is blank. -/
def encodedSegment (segment : JsString) : Option (List Char) :=
  if blankUnits segment then none else encodeUnits segment

/-- `labeledSegment(id, label, fallback)`. -/
def labeledSegment (id : JsString) (label : RouteLabel) (fallback : String) :
    Option (List Char) :=
  (encodedSegment id).map fun encodedId =>
    match label with
    | none => encodedId
    | some label => encodeURIComponent (readableSlug (label.getD []) fallback) ++ '@' :: encodedId

end Segments

/-- `decodedSegment(segment)`; an undefined segment is `none`. -/
def decodedSegment (segment : Option (List Char)) : Option JsString :=
  match segment with
  | none => none
  | some [] => none
  | some segment =>
    (decodeURIComponent segment).bind fun decoded =>
      if blankUnits (unitsOf decoded) then none else some (unitsOf decoded)

/-- The text before and after the first `@`, where there is one. -/
def splitIdentifier : List Char → Option (List Char × List Char)
  | [] => none
  | c :: rest =>
    if c = '@' then some ([], rest)
    else (splitIdentifier rest).map fun (before, after) => (c :: before, after)

/-- `identifierSegment(segment)`: what stands behind the first separator, or all of it. -/
def identifierSegment (segment : Option (List Char)) : Option JsString :=
  segment.bind fun segment =>
    match splitIdentifier segment with
    | some (_, after) => decodedSegment (some after)
    | none => decodedSegment (some segment)

/-- `identifierLabel(segment)`: what stands before that separator. -/
def identifierLabel (segment : Option (List Char)) : RouteLabel :=
  segment.bind fun segment =>
    (splitIdentifier segment).map fun (before, _) => decodedSegment (some before)

/-! ## 3. Query parameters -/

/-- Within a character: its value so far, the number of bytes to come and the range of the
    next. -/
structure Utf8State where
  value : Nat
  left : Nat
  low : Nat
  high : Nat

/-- A byte that begins a character; one that begins none is replaced. -/
def utf8Start (b : Nat) : Option Utf8State × List Char :=
  if b < 0x80 then (none, [Char.ofNat b])
  else if 0xC2 ≤ b ∧ b ≤ 0xDF then (some ⟨b - 0xC0, 1, 0x80, 0xBF⟩, [])
  else if 0xE0 ≤ b ∧ b ≤ 0xEF then
    (some ⟨b - 0xE0, 2, if b = 0xE0 then 0xA0 else 0x80, if b = 0xED then 0x9F else 0xBF⟩, [])
  else if 0xF0 ≤ b ∧ b ≤ 0xF4 then
    (some ⟨b - 0xF0, 3, if b = 0xF0 then 0x90 else 0x80, if b = 0xF4 then 0x8F else 0xBF⟩, [])
  else (none, [replacementCharacter])

/-- The UTF-8 decoder of the web, which replaces what is malformed. -/
def decodeLossy : Option Utf8State → List UInt8 → List Char
  | none, [] => []
  | some _, [] => [replacementCharacter]
  | none, b :: rest => (utf8Start b.toNat).2 ++ decodeLossy (utf8Start b.toNat).1 rest
  | some state, b :: rest =>
    if state.low ≤ b.toNat ∧ b.toNat ≤ state.high then
      let value := state.value * 64 + (b.toNat - 0x80)
      if state.left = 1 then Char.ofNat value :: decodeLossy none rest
      else decodeLossy (some ⟨value, state.left - 1, 0x80, 0xBF⟩) rest
    else
      -- the byte is read again, as the first of a character
      replacementCharacter :: (utf8Start b.toNat).2 ++ decodeLossy (utf8Start b.toNat).1 rest

/-- The bytes of a part of a query: a plus sign is a space, and an escape its byte. -/
def formBytes : List Char → List UInt8
  | [] => []
  | [c] => String.utf8EncodeChar (if c = '+' then ' ' else c)
  | [c, d] => String.utf8EncodeChar (if c = '+' then ' ' else c) ++ formBytes [d]
  | c :: d :: e :: rest =>
    match (if c = '%' then (hexValue d).bind fun high => (hexValue e).map (16 * high + ·)
        else none) with
    | some byte => UInt8.ofNat byte :: formBytes rest
    | none => String.utf8EncodeChar (if c = '+' then ' ' else c) ++ formBytes (d :: e :: rest)

/-- The text of a name or a value of a query. -/
def formText (text : List Char) : String := String.ofList (decodeLossy none (formBytes text))

/-- `url.searchParams.get(name)`. -/
def searchParam (url : Url) (name : String) : Option String :=
  (((url.query.getD []).splitOn '&').filter fun piece => !piece.isEmpty).findSome? fun piece =>
    if formText (piece.takeWhile fun c => c != '=') = name then
      some (formText (piece.dropWhile fun c => c != '=').tail)
    else none

/-- `url.searchParams.get(name)?.trim()`, where that is not empty. -/
def trimmedParam (url : Url) (name : String) : Option JsString :=
  presentText ((searchParam url name).map fun text => utf16 (trim text))

/-! ## 4. Paths -/

/-- `view === "inventory" && itemId`. -/
def WorkspacePathInput.shownItem (input : WorkspacePathInput) : Option JsString :=
  if input.view = .inventory then presentText input.itemId else none

/-- The location, in a view that shows locations. -/
def WorkspacePathInput.shownLocation (input : WorkspacePathInput) : Option JsString :=
  if input.view.showsLocations then presentText input.locationId else none

section Paths

variable [CharacterData]

/-- `workspacePath(input)`, which throws where an identifier it names is blank or no text. -/
def workspacePath (input : WorkspacePathInput) : Option String :=
  (labeledSegment input.workspaceId input.workspaceLabel "workspace").bind fun segment =>
    let base := workspaceListPath ++ '/' :: segment ++ '/' :: input.view.text.toList
    match input.shownItem with
    | some itemId =>
      (labeledSegment itemId input.itemLabel "item").map fun detail =>
        String.ofList (base ++ '/' :: itemPathSegment ++ '/' :: detail)
    | none =>
      match input.shownLocation with
      | some locationId =>
        (labeledSegment locationId input.locationLabel "location").map fun detail =>
          String.ofList (base ++ '/' :: locationPathSegment ++ '/' :: detail)
      | none => some (String.ofList base)

/-- The route of a workspace, from the segments of its path. -/
def workspaceRoute (workspaceId : JsString) (view : WorkspaceView)
    (detailType detailId : Option (List Char)) : AppRoute :=
  let decodedDetail := identifierSegment detailId
  let locationId :=
    if detailType = some locationPathSegment && view.showsLocations then decodedDetail else none
  let itemId := if detailType = some itemPathSegment && view == .inventory then decodedDetail
    else none
  .workspace itemId locationId view workspaceId

/-- `url.pathname.split("/").filter(Boolean)`. -/
def Url.segments (url : Url) : List (List Char) := url.path.filter fun segment => !segment.isEmpty

/-- `parseAppUrl(url)`. -/
def parseAppUrl (url : Url) : AppRoute :=
  let segments := url.segments
  if segments = [workspacePathSegment] then .workspaceList
  else if segments.head? = some workspacePathSegment then
    match identifierSegment segments[1]? with
    | none => .workspaceList
    | some workspaceId =>
      workspaceRoute workspaceId (workspaceView segments[2]?) segments[3]? segments[4]?
  else
    match trimmedParam url "workspace" with
    | none => .home
    | some legacyWorkspaceId =>
      let view := workspaceView ((searchParam url "view").map String.toList)
      let legacyLocationId :=
        if view = .inventory then trimmedParam url "location" else trimmedParam url "container"
      let legacyItemId := if view = .inventory then trimmedParam url "item" else none
      .workspace legacyItemId legacyLocationId view legacyWorkspaceId

variable (hostParser : List Char → Option String)

/-- The unit of a slash. -/
def slashUnit : UInt16 := 0x2F

/-- The view that a request asks for, where it is a route of the workspace on the base's own
    origin. The URL parser replaces what is no text. -/
def requestedView (requested : Option JsString) (workspaceId : JsString) :
    Option WorkspacePathInput :=
  requested.bind fun requested =>
    if requested.head? ≠ some slashUnit then none
    else (parseRooted hostParser parseBaseUrl (toWellFormed requested)).bind fun url =>
      if url.origin ≠ parseBaseUrl then none
      else match parseAppUrl url with
        | .home | .workspaceList => none
        | .workspace itemId locationId view routeId =>
          if routeId ≠ workspaceId then none
          else
            let readablePath := url.segments.head? = some workspacePathSegment
            let detailLabel := if readablePath then identifierLabel url.segments[4]? else none
            some {
              itemId
              itemLabel := if itemId.isSome then detailLabel else none
              locationId
              locationLabel := if locationId.isSome then detailLabel else none
              view
              workspaceId
              workspaceLabel := if readablePath then identifierLabel url.segments[1]? else none }

/-- `workspaceReturnTo(requested, workspaceId)`, which throws where the identifier is blank or no
    text. -/
def workspaceReturnTo (requested : Option JsString) (workspaceId : JsString) : Option String :=
  (workspacePath { view := defaultWorkspaceView, workspaceId }).map fun fallback =>
    ((requestedView hostParser requested workspaceId).bind workspacePath).getD fallback

end Paths

/-! ## 5. What a segment says -/

section Carries

/-- The identifier stands alone in its segment, and is this text. -/
def Alone (label : RouteLabel) (id : JsString) (text : String) : Prop :=
  label = none ∧ id = utf16 text

/-- **What a segment says of the identifier it was made for**: it is read back, and the segment is a
    dot segment only where the identifier is, without a label. -/
structure Carries (segment : List Char) (id : JsString) (label : RouteLabel) : Prop where
  plain : ∀ c ∈ segment, PathChar c
  ne_nil : segment ≠ []
  reads : identifierSegment (some segment) = some id
  single : isSingleDot segment = true ↔ Alone label id "."
  double : isDoubleDot segment = true ↔ Alone label id ".."

theorem pathChar_of_unreserved {c : Char} (h : unreserved c = true) : PathChar c ∧ c ≠ '@' := by
  have hchars : ∀ d ∈ ['-', '_', '.', '!', '~', '*', '\'', '(', ')'], PathChar d ∧ d ≠ '@' := by
    intro d hd
    simp only [List.mem_cons, List.not_mem_nil, or_false] at hd
    rcases hd with rfl | rfl | rfl | rfl | rfl | rfl | rfl | rfl | rfl
    all_goals exact ⟨⟨by decide, by decide, by decide, by decide⟩, by decide⟩
  rcases Bool.or_eq_true_iff.mp h with h | h
  · have hout : ∀ d, d.isAlphanum = false → c ≠ d := by
      rintro d hd rfl
      rw [hd] at h
      cases h
    have hnot : ∀ l : List Char, l.all (fun d => !d.isAlphanum) = true → l.contains c = false := by
      intro l hl
      rw [Bool.eq_false_iff]
      intro hc
      have hc := List.all_eq_true.mp hl c (List.contains_iff_mem.mp hc)
      rw [Bool.not_eq_true'] at hc
      exact hout c hc rfl
    have hcontrol : isControl c = false := by
      rw [Bool.eq_false_iff]
      intro hc
      exact hout c (isControl_escapable hc).1 rfl
    refine ⟨⟨printable_of_not_control hcontrol (hout _ rfl), ?_, ?_, ?_⟩, hout _ rfl⟩
    · unfold isSlash
      rw [beq_eq_false_iff_ne.mpr (hout _ rfl), beq_eq_false_iff_ne.mpr (hout _ rfl)]
      rfl
    · unfold endsPath
      rw [beq_eq_false_iff_ne.mpr (hout _ rfl), beq_eq_false_iff_ne.mpr (hout _ rfl)]
      rfl
    · unfold pathSet
      rw [hcontrol, hnot _ (by decide)]
      rfl
  · exact hchars c (List.contains_iff_mem.mp h)

theorem encodeURIComponent_plain (text : List Char) :
    ∀ c ∈ encodeURIComponent text, PathChar c ∧ c ≠ '@' := by
  refine forall_percentEncode ⟨⟨by decide, by decide, by decide, by decide⟩, by decide⟩ ?_ ?_
  · intro n hn
    have hdigit : ∀ n < 16, unreserved (hexDigit n) = true := by decide
    exact pathChar_of_unreserved (hdigit n hn)
  · intro c _ hc
    exact pathChar_of_unreserved (by rwa [Bool.not_eq_false'] at hc)

theorem splitIdentifier_none {text : List Char} (h : ∀ c ∈ text, c ≠ '@') :
    splitIdentifier text = none := by
  induction text with
  | nil => rfl
  | cons c text ih =>
      unfold splitIdentifier
      rw [if_neg (h c List.mem_cons_self), ih fun d hd => h d (List.mem_cons_of_mem _ hd)]
      rfl

theorem splitIdentifier_append {before : List Char} (h : ∀ c ∈ before, c ≠ '@') (after : List Char) :
    splitIdentifier (before ++ '@' :: after) = some (before, after) := by
  induction before with
  | nil => rfl
  | cons c before ih =>
      rw [List.cons_append]
      unfold splitIdentifier
      rw [if_neg (h c List.mem_cons_self), ih fun d hd => h d (List.mem_cons_of_mem _ hd)]
      rfl

theorem splitIdentifier_isSome (text : List Char) :
    (splitIdentifier text).isSome = true ↔ '@' ∈ text := by
  induction text with
  | nil => exact iff_of_false nofun nofun
  | cons c text ih =>
      unfold splitIdentifier
      by_cases hc : c = '@'
      · rw [if_pos hc, hc]
        exact iff_of_true rfl List.mem_cons_self
      · rw [if_neg hc, Option.isSome_map, ih, List.mem_cons, or_iff_right (Ne.symm hc)]

theorem encodeURIComponent_ne_nil {text : List Char} (h : text ≠ []) :
    encodeURIComponent text ≠ [] := fun hcode => h (percentEncode_nil.mp hcode)

/-- An identifier that a link can carry: it is a text, and not blank. -/
structure Legible (id : JsString) : Prop where
  filled : blankUnits id = false
  text : isWellFormed id = true

theorem ne_nil_of_not_blank {id : JsString} (h : blankUnits id = false) : id ≠ [] := by
  rintro rfl
  cases h

theorem Legible.units {id : JsString} (h : Legible id) : unitsOf (toWellFormed id) = id :=
  isWellFormed_iff.mp h.text

theorem Legible.ne_nil {id : JsString} (h : Legible id) : toWellFormed id ≠ [] := by
  intro hnil
  refine ne_nil_of_not_blank h.filled ?_
  rw [← h.units, hnil]
  rfl

theorem Legible.encoded {id : JsString} (h : Legible id) :
    encodedSegment id = some (encodeURIComponent (toWellFormed id)) := by
  unfold encodedSegment encodeUnits
  rw [h.filled, if_neg Bool.false_ne_true, h.text, if_pos rfl]

theorem encodedSegment_none {id : JsString} (h : isWellFormed id = false) :
    encodedSegment id = none := by
  unfold encodedSegment encodeUnits
  rw [h, if_neg Bool.false_ne_true, ite_self]

theorem decodedSegment_encode {id : JsString} (h : Legible id) :
    decodedSegment (some (encodeURIComponent (toWellFormed id))) = some id := by
  have hne := encodeURIComponent_ne_nil h.ne_nil
  have hdecode := encodeURIComponent_decode (toWellFormed id)
  unfold decodedSegment
  cases hcode : encodeURIComponent (toWellFormed id) with
  | nil => exact absurd hcode hne
  | cons c code =>
      rw [hcode] at hdecode
      dsimp only
      rw [hdecode, Option.bind_some, h.units, h.filled]
      rfl

/-- The escaped text is a dot segment only where the text is a dot. -/
theorem encode_single {id : JsString} (h : Legible id) :
    isSingleDot (encodeURIComponent (toWellFormed id)) = true ↔ id = utf16 "." := by
  constructor
  · intro hdot
    have hdecode := isSingleDot_decode hdot
    rw [encodeURIComponent_decode] at hdecode
    rw [← h.units, Option.some.inj hdecode]
    rfl
  · rintro rfl
    rw [show toWellFormed (utf16 ".") = ['.'] from toWellFormed_unitsOf _]
    decide

theorem encode_double {id : JsString} (h : Legible id) :
    isDoubleDot (encodeURIComponent (toWellFormed id)) = true ↔ id = utf16 ".." := by
  constructor
  · intro hdot
    have hdecode := isDoubleDot_decode hdot
    rw [encodeURIComponent_decode] at hdecode
    rw [← h.units, Option.some.inj hdecode]
    rfl
  · rintro rfl
    rw [show toWellFormed (utf16 "..") = ['.', '.'] from toWellFormed_unitsOf _]
    decide

variable [CharacterData]

/-- **The segment of an identifier carries it.** -/
theorem labeledSegment_carries {id : JsString} (h : Legible id) (label : RouteLabel)
    (fallback : String) :
    ∃ segment, labeledSegment id label fallback = some segment ∧ Carries segment id label := by
  have hcode := encodeURIComponent_plain (toWellFormed id)
  unfold labeledSegment
  rw [h.encoded, Option.map_some]
  refine ⟨_, rfl, ?_⟩
  cases label with
  | none =>
      refine ⟨fun c hc => (hcode c hc).1, encodeURIComponent_ne_nil h.ne_nil, ?_, ?_, ?_⟩
      · unfold identifierSegment
        rw [Option.bind_some, splitIdentifier_none fun c hc => (hcode c hc).2]
        exact decodedSegment_encode h
      · rw [encode_single h]
        exact ⟨fun hid => ⟨rfl, hid⟩, fun halone => halone.2⟩
      · rw [encode_double h]
        exact ⟨fun hid => ⟨rfl, hid⟩, fun halone => halone.2⟩
  | some label =>
      dsimp only
      have hslug := encodeURIComponent_plain (readableSlug (label.getD []) fallback)
      generalize encodeURIComponent (readableSlug (label.getD []) fallback) = slug at hslug
      -- the `@` is in no dot segment
      have hdots : ¬ (isSingleDot (slug ++ '@' :: encodeURIComponent (toWellFormed id)) = true ∨
          isDoubleDot (slug ++ '@' :: encodeURIComponent (toWellFormed id)) = true) := by
        intro hdot
        have hat := dots_mem hdot '@' (List.mem_append_right _ List.mem_cons_self)
        revert hat
        decide
      obtain ⟨hsingle, hdouble⟩ := not_or.mp hdots
      refine ⟨?_, ?_, ?_, iff_of_false hsingle nofun, iff_of_false hdouble nofun⟩
      · intro c hc
        rcases List.mem_append.mp hc with hc | hc
        · exact (hslug c hc).1
        · rcases List.mem_cons.mp hc with rfl | hc
          · exact ⟨by decide, by decide, by decide, by decide⟩
          · exact (hcode c hc).1
      · exact List.append_ne_nil_of_right_ne_nil _ (List.cons_ne_nil _ _)
      · unfold identifierSegment
        rw [Option.bind_some, splitIdentifier_append fun c hc => (hslug c hc).2]
        exact decodedSegment_encode h

end Carries

/-! ## 6. Where a path leads -/

section Leads

variable {hostParser : List Char → Option String} {base : Origin} {input : WorkspacePathInput}

/-- On a site, the path leads to this route. -/
def LeadsTo (hostParser : List Char → Option String) (base : Origin) (path : String)
    (route : AppRoute) : Prop :=
  (parseRooted hostParser base path.toList).map parseAppUrl = some route

/-- The identifiers that are given are not blank. -/
structure WorkspacePathInput.Identified (input : WorkspacePathInput) : Prop where
  workspace : blankUnits input.workspaceId = false
  item : ∀ id ∈ input.itemId, blankUnits id = false
  location : ∀ id ∈ input.locationId, blankUnits id = false

/-- The location that the path names: none beside an item. -/
def WorkspacePathInput.namedLocation (input : WorkspacePathInput) : Option JsString :=
  if input.shownItem = none then input.shownLocation else none

/-- **Each identifier that the path names is a text**: none has a surrogate that stands alone. -/
structure WorkspacePathInput.Encodable (input : WorkspacePathInput) : Prop where
  workspace : isWellFormed input.workspaceId = true
  item : ∀ id ∈ input.shownItem, isWellFormed id = true
  location : ∀ id ∈ input.namedLocation, isWellFormed id = true

/-- The view has a place for what is given. -/
structure WorkspacePathInput.Placed (input : WorkspacePathInput) : Prop where
  item : input.itemId ≠ none → input.view = .inventory
  location : input.locationId ≠ none → input.view.showsLocations = true ∧ input.itemId = none

/-- A dot or two, without a label. -/
def IsDots (label : RouteLabel) (id : JsString) : Prop := Alone label id "." ∨ Alone label id ".."

/-- The item or the location that the path names is a dot or two, without a label. -/
def WorkspacePathInput.DotDetail (input : WorkspacePathInput) : Prop :=
  (∃ id ∈ input.shownItem, IsDots input.itemLabel id) ∨
    ∃ id ∈ input.namedLocation, IsDots input.locationLabel id

/-- **No identifier that the path names is a dot or two without a label.** -/
structure WorkspacePathInput.Apart (input : WorkspacePathInput) : Prop where
  workspace : ¬ IsDots input.workspaceLabel input.workspaceId
  detail : ¬ input.DotDetail

/-- The segments behind the view. -/
inductive Detail (input : WorkspacePathInput) : List (List Char) → Prop where
  | bare (hitem : input.shownItem = none) (hlocation : input.namedLocation = none) :
      Detail input []
  | item {id : JsString} {segment : List Char} (hitem : input.shownItem = some id)
      (hcarries : Carries segment id input.itemLabel) : Detail input [itemPathSegment, segment]
  | location {id : JsString} {segment : List Char} (hitem : input.shownItem = none)
      (hlocation : input.namedLocation = some id)
      (hcarries : Carries segment id input.locationLabel) :
      Detail input [locationPathSegment, segment]

/-- A segment of the route itself: plain, not empty, and no dots. -/
structure Fixed (segment : List Char) : Prop where
  plain : ∀ c ∈ segment, PathChar c
  filled : segment.isEmpty = false
  clear : isSingleDot segment = false ∧ isDoubleDot segment = false

theorem fixed_of {segment : List Char} (h : segment.all unreserved = true)
    (hfilled : segment.isEmpty = false)
    (hclear : isSingleDot segment = false ∧ isDoubleDot segment = false) : Fixed segment :=
  ⟨fun c hc => (pathChar_of_unreserved (List.all_eq_true.mp h c hc)).1, hfilled, hclear⟩

theorem fixed_workspaces : Fixed workspacePathSegment := fixed_of (by decide) (by decide) (by decide)

theorem fixed_items : Fixed itemPathSegment := fixed_of (by decide) (by decide) (by decide)

theorem fixed_locations : Fixed locationPathSegment := fixed_of (by decide) (by decide) (by decide)

theorem fixed_view (view : WorkspaceView) : Fixed view.text.toList := by
  cases view <;> exact fixed_of (by decide) (by decide) (by decide)

theorem presentText_of {text : Option JsString} (h : ∀ id ∈ text, blankUnits id = false) :
    presentText text = text := by
  cases text with
  | none => rfl
  | some id =>
      have hid := h id rfl
      refine Option.filter_some_pos ?_
      cases id with
      | nil => cases hid
      | cons u id => rfl

theorem shownItem_eq (h : input.Identified) :
    input.shownItem = if input.view = .inventory then input.itemId else none := by
  unfold WorkspacePathInput.shownItem
  rw [presentText_of h.item]

theorem shownLocation_eq (h : input.Identified) :
    input.shownLocation = if input.view.showsLocations then input.locationId else none := by
  unfold WorkspacePathInput.shownLocation
  rw [presentText_of h.location]

theorem mem_of_shownItem (h : input.Identified) {id : JsString}
    (hid : input.shownItem = some id) : blankUnits id = false := by
  rw [shownItem_eq h] at hid
  split at hid
  · exact h.item id hid
  · cases hid

theorem mem_of_shownLocation (h : input.Identified) {id : JsString}
    (hid : input.shownLocation = some id) : blankUnits id = false := by
  rw [shownLocation_eq h] at hid
  split at hid
  · exact h.location id hid
  · cases hid

theorem namedLocation_of_none (h : input.shownItem = none) :
    input.namedLocation = input.shownLocation := if_pos h

theorem workspaceListPath_eq : workspaceListPath = '/' :: workspacePathSegment := by decide

section Written

variable [CharacterData]

/-- **The segments of a path**: the workspace, the view and what is shown in it. -/
theorem workspacePath_segments (h : input.Identified) (he : input.Encodable) : ∃ segment detail,
    Carries segment input.workspaceId input.workspaceLabel ∧ Detail input detail ∧
    workspacePath input = some (String.ofList
      (slashed (workspacePathSegment :: segment :: input.view.text.toList :: detail))) := by
  obtain ⟨segment, hsegment, hcarries⟩ :=
    labeledSegment_carries ⟨h.workspace, he.workspace⟩ input.workspaceLabel "workspace"
  have hbase : ∀ detail, workspaceListPath ++ '/' :: segment ++ '/' :: input.view.text.toList ++
      slashed detail =
        slashed (workspacePathSegment :: segment :: input.view.text.toList :: detail) := by
    intro detail
    rw [workspaceListPath_eq]
    simp [slashed]
  unfold workspacePath
  rw [hsegment, Option.bind_some]
  dsimp only
  cases hitem : input.shownItem with
  | some id =>
      obtain ⟨d, hd, hdetail⟩ :=
        labeledSegment_carries ⟨mem_of_shownItem h hitem, he.item id hitem⟩ input.itemLabel "item"
      refine ⟨segment, _, hcarries, .item hitem hdetail, ?_⟩
      dsimp only
      rw [hd, Option.map_some, ← hbase]
      simp [slashed]
  | none =>
      have hnamed := namedLocation_of_none hitem
      cases hlocation : input.shownLocation with
      | some id =>
          obtain ⟨d, hd, hdetail⟩ :=
            labeledSegment_carries ⟨mem_of_shownLocation h hlocation,
              he.location id (hnamed.trans hlocation)⟩ input.locationLabel "location"
          refine ⟨segment, _, hcarries, .location hitem (hnamed.trans hlocation) hdetail, ?_⟩
          dsimp only
          rw [hd, Option.map_some, ← hbase]
          simp [slashed]
      | none =>
          refine ⟨segment, _, hcarries, .bare hitem (hnamed.trans hlocation), ?_⟩
          dsimp only
          rw [← hbase]
          simp [slashed]

theorem labeledSegment_none {id : JsString} (h : isWellFormed id = false) (label : RouteLabel)
    (fallback : String) : labeledSegment id label fallback = none := by
  unfold labeledSegment
  rw [encodedSegment_none h]
  rfl

/-- **No path is made where an identifier that it names is no text.** -/
theorem workspacePath_none (h : ¬ input.Encodable) : workspacePath input = none := by
  unfold workspacePath
  cases hworkspace : isWellFormed input.workspaceId with
  | false =>
      rw [labeledSegment_none hworkspace]
      rfl
  | true =>
      refine Option.bind_eq_none_iff.mpr fun segment _ => ?_
      dsimp only
      cases hitem : input.shownItem with
      | some id =>
          cases htext : isWellFormed id with
          | false =>
              dsimp only
              rw [labeledSegment_none htext]
              rfl
          | true =>
              refine absurd ⟨hworkspace, ?_, ?_⟩ h
              · intro id' hid
                rwa [← Option.some.inj (hitem.symm.trans hid)]
              · unfold WorkspacePathInput.namedLocation
                rw [hitem]
                intro _ hid
                cases hid
      | none =>
          dsimp only
          have hnamed := namedLocation_of_none hitem
          have hnone : ∀ id ∈ input.shownItem, isWellFormed id = true := by
            intro id hid
            cases hitem.symm.trans hid
          cases hlocation : input.shownLocation with
          | some id =>
              cases htext : isWellFormed id with
              | false =>
                  dsimp only
                  rw [labeledSegment_none htext]
                  rfl
              | true =>
                  refine absurd ⟨hworkspace, hnone, fun id' hid => ?_⟩ h
                  rwa [← Option.some.inj ((hnamed.trans hlocation).symm.trans hid)]
          | none =>
              refine absurd ⟨hworkspace, hnone, fun id' hid => ?_⟩ h
              cases (hnamed.trans hlocation).symm.trans hid

end Written

theorem Detail.plain {detail : List (List Char)} (h : Detail input detail) :
    ∀ s ∈ detail, ∀ c ∈ s, PathChar c := by
  intro s hs
  cases h with
  | bare => cases hs
  | item _ hcarries =>
      rcases List.mem_pair.mp hs with rfl | rfl
      · exact fixed_items.plain
      · exact hcarries.plain
  | location _ _ hcarries =>
      rcases List.mem_pair.mp hs with rfl | rfl
      · exact fixed_locations.plain
      · exact hcarries.plain

/-- A link is parsed once its dots are resolved. -/
theorem leadsTo_segments {segment : List Char} {detail : List (List Char)}
    (hsegment : ∀ c ∈ segment, PathChar c) (hdetail : ∀ s ∈ detail, ∀ c ∈ s, PathChar c)
    (view : WorkspaceView) (route : AppRoute) :
    LeadsTo hostParser base (String.ofList
        (slashed (workspacePathSegment :: segment :: view.text.toList :: detail))) route ↔
      parseAppUrl ⟨base, resolveDots [workspacePathSegment]
        (segment :: view.text.toList :: detail), none, none⟩ = route := by
  have hplain : ∀ s ∈ workspacePathSegment :: segment :: view.text.toList :: detail,
      ∀ c ∈ s, PathChar c := by
    intro s hs
    rcases List.mem_cons.mp hs with rfl | hs
    · exact fixed_workspaces.plain
    · rcases List.mem_cons.mp hs with rfl | hs
      · exact hsegment
      · rcases List.mem_cons.mp hs with rfl | hs
        · exact (fixed_view view).plain
        · exact hdetail s hs
  have hname : workspacePathSegment = 'w' :: "orkspaces".toList := by decide
  have hclear : ∀ s ∈ [workspacePathSegment], isSingleDot s = false ∧ isDoubleDot s = false := by
    intro s hs
    rw [List.mem_singleton.mp hs]
    exact fixed_workspaces.clear
  have hdots := @resolveDots_append [] _ hclear (segment :: view.text.toList :: detail)
  rw [List.singleton_append, List.nil_append] at hdots
  unfold LeadsTo
  rw [String.toList_ofList]
  rw [hname] at hplain hdots ⊢
  rw [parseRooted_slashed hplain, hdots, Option.map_some]
  exact Option.some_inj

/-- The segments of a pathname that are not empty. -/
def filledSegments (path : List (List Char)) : List (List Char) :=
  path.filter fun segment => !segment.isEmpty

theorem filledSegments_cons {segment : List Char} (h : segment.isEmpty = false)
    (path : List (List Char)) : filledSegments (segment :: path) = segment :: filledSegments path := by
  unfold filledSegments
  refine List.filter_cons_of_pos ?_
  rw [h]
  rfl

theorem Carries.filled {segment : List Char} {id : JsString} {label : RouteLabel}
    (h : Carries segment id label) : segment.isEmpty = false := by
  rw [Bool.eq_false_iff]
  exact fun hempty => h.ne_nil (List.isEmpty_iff.mp hempty)

/-- What is left of a type and an identifier once the dots are resolved: both, or no
    identifier. -/
theorem resolveDots_pair {type segment : List Char} {id : JsString} {label : RouteLabel}
    (htype : Fixed type) (h : Carries segment id label) :
    ∃ rest, (∀ kept, resolveDots kept [type, segment] = kept ++ rest) ∧
      (¬ IsDots label id ∧ filledSegments rest = [type, segment] ∨
        IsDots label id ∧ (filledSegments rest)[1]? = none) := by
  have hfirst : ∀ kept, resolveDots kept [type, segment] = resolveDots (kept ++ [type]) [segment] := by
    intro kept
    have hclear : ∀ s ∈ [type], isSingleDot s = false ∧ isDoubleDot s = false := by
      intro s hs
      rw [List.mem_singleton.mp hs]
      exact htype.clear
    exact @resolveDots_append kept _ hclear [segment]
  have htype' := filledSegments_cons htype.filled
  by_cases hdouble : Alone label id ".."
  · refine ⟨[[]], fun kept => ?_, .inr ⟨.inr hdouble, rfl⟩⟩
    rw [hfirst]
    unfold resolveDots
    rw [if_pos (h.double.mpr hdouble), List.dropLast_concat]
  · by_cases hsingle : Alone label id "."
    · refine ⟨[type, []], fun kept => ?_, .inr ⟨.inl hsingle, ?_⟩⟩
      · rw [hfirst]
        unfold resolveDots
        rw [if_neg fun hd => hdouble (h.double.mp hd), if_pos (h.single.mpr hsingle),
          List.append_assoc]
        rfl
      · rw [htype']
        rfl
    · refine ⟨[type, segment], fun kept => ?_, .inl ⟨?_, ?_⟩⟩
      · rw [hfirst]
        unfold resolveDots
        rw [if_neg fun hd => hdouble (h.double.mp hd), if_neg fun hd => hsingle (h.single.mp hd),
          List.append_assoc]
        rfl
      · exact fun hdots => hdots.elim hsingle hdouble
      · rw [htype', filledSegments_cons h.filled]
        rfl

/-- What the segments behind the view are read as. -/
structure DetailReads (input : WorkspacePathInput) (rest : List (List Char))
    (item location : Option JsString) : Prop where
  route : ∀ id, workspaceRoute id input.view (filledSegments rest)[0]? (filledSegments rest)[1]? =
    .workspace item location input.view id
  apart : ¬ input.DotDetail → item = input.shownItem ∧ location = input.namedLocation
  dots : input.DotDetail → item = none ∧ location = none ∧
    (input.shownItem ≠ none ∨ input.namedLocation ≠ none)

theorem workspaceRoute_none (id : JsString) (view : WorkspaceView) (type : Option (List Char)) :
    workspaceRoute id view type none = .workspace none none view id := by
  unfold workspaceRoute identifierSegment
  simp

theorem workspaceRoute_item {segment : List Char} {itemId : JsString} (id : JsString)
    (h : identifierSegment (some segment) = some itemId) :
    workspaceRoute id .inventory (some itemPathSegment) (some segment) =
      .workspace (some itemId) none .inventory id := by
  have hother : itemPathSegment ≠ locationPathSegment := by decide
  unfold workspaceRoute
  simp [h, hother]

theorem workspaceRoute_location {segment : List Char} {locationId : JsString} (id : JsString)
    {view : WorkspaceView} (hview : view.showsLocations = true)
    (h : identifierSegment (some segment) = some locationId) :
    workspaceRoute id view (some locationPathSegment) (some segment) =
      .workspace none (some locationId) view id := by
  have hother : locationPathSegment ≠ itemPathSegment := by decide
  unfold workspaceRoute
  simp [h, hview, hother]

/-- **The segments behind the view are read as what is shown**, but for dots. -/
theorem Detail.reads {detail : List (List Char)} (h : Detail input detail) :
    ∃ rest item location, (∀ kept, resolveDots kept detail = kept ++ rest) ∧
      DetailReads input rest item location := by
  cases h with
  | bare hitem hlocation =>
      refine ⟨[], none, none, fun kept => (List.append_nil kept).symm, ?_, ?_, ?_⟩
      · exact fun id => workspaceRoute_none id _ _
      · exact fun _ => ⟨hitem.symm, hlocation.symm⟩
      · rintro (⟨id, hid, -⟩ | ⟨id, hid, -⟩)
        · rw [hitem] at hid
          cases hid
        · rw [hlocation] at hid
          cases hid
  | @item id segment hitem hcarries =>
      have hview : input.view = .inventory := by
        unfold WorkspacePathInput.shownItem at hitem
        by_contra hne
        rw [if_neg hne] at hitem
        cases hitem
      have hlocation : input.namedLocation = none := by
        unfold WorkspacePathInput.namedLocation
        rw [hitem]
        rfl
      have hdetail : input.DotDetail ↔ IsDots input.itemLabel id := by
        unfold WorkspacePathInput.DotDetail
        rw [hitem, hlocation]
        simp
      obtain ⟨rest, hrest, ⟨hdots, hfilled⟩ | ⟨hdots, hnone⟩⟩ := resolveDots_pair fixed_items hcarries
      · refine ⟨rest, some id, none, hrest, fun workspaceId => ?_, ?_, ?_⟩
        · rw [hfilled, hview]
          exact workspaceRoute_item workspaceId hcarries.reads
        · exact fun _ => ⟨hitem.symm, hlocation.symm⟩
        · exact fun h => absurd (hdetail.mp h) hdots
      · refine ⟨rest, none, none, hrest, fun workspaceId => ?_, ?_, ?_⟩
        · rw [hnone]
          exact workspaceRoute_none _ _ _
        · exact fun h => absurd (hdetail.mpr hdots) h
        · refine fun _ => ⟨rfl, rfl, .inl ?_⟩
          rw [hitem]
          exact Option.some_ne_none id
  | @location id segment hitem hlocation hcarries =>
      have hview : input.view.showsLocations = true := by
        unfold WorkspacePathInput.namedLocation WorkspacePathInput.shownLocation at hlocation
        by_contra hne
        rw [if_neg hne, ite_self] at hlocation
        cases hlocation
      have hdetail : input.DotDetail ↔ IsDots input.locationLabel id := by
        unfold WorkspacePathInput.DotDetail
        rw [hitem, hlocation]
        simp
      obtain ⟨rest, hrest, ⟨hdots, hfilled⟩ | ⟨hdots, hnone⟩⟩ :=
        resolveDots_pair fixed_locations hcarries
      · refine ⟨rest, none, some id, hrest, fun workspaceId => ?_, ?_, ?_⟩
        · rw [hfilled]
          exact workspaceRoute_location workspaceId hview hcarries.reads
        · exact fun _ => ⟨hitem.symm, hlocation.symm⟩
        · exact fun h => absurd (hdetail.mp h) hdots
      · refine ⟨rest, none, none, hrest, fun workspaceId => ?_, ?_, ?_⟩
        · rw [hnone]
          exact workspaceRoute_none _ _ _
        · exact fun h => absurd (hdetail.mpr hdots) h
        · refine fun _ => ⟨rfl, rfl, .inr ?_⟩
          rw [hlocation]
          exact Option.some_ne_none id

theorem workspaceView_text (view : WorkspaceView) : workspaceView (some view.text.toList) = view := by
  cases view <;> decide

/-- A path whose second segment names a workspace is a route of it. -/
theorem parseAppUrl_named {url : Url} {segment : List Char} {rest : List (List Char)}
    {id : JsString}
    (hsegments : url.segments = workspacePathSegment :: segment :: rest)
    (hreads : identifierSegment (some segment) = some id) :
    parseAppUrl url = workspaceRoute id (workspaceView rest[0]?) rest[1]? rest[2]? := by
  unfold parseAppUrl
  rw [hsegments]
  dsimp only
  rw [if_neg (by simp), List.head?_cons, if_pos rfl]
  dsimp only [List.getElem?_cons_zero, List.getElem?_cons_succ]
  rw [hreads]

theorem segments_named {segment : List Char} (h : segment.isEmpty = false)
    (rest : List (List Char)) :
    Url.segments ⟨base, workspacePathSegment :: segment :: rest, none, none⟩ =
      workspacePathSegment :: segment :: filledSegments rest := by
  show filledSegments (workspacePathSegment :: segment :: rest) = _
  rw [filledSegments_cons fixed_workspaces.filled, filledSegments_cons h]

/-- A path that begins with a view leads home. -/
theorem parseAppUrl_view (view : WorkspaceView) (rest : List (List Char)) :
    parseAppUrl ⟨base, view.text.toList :: rest, none, none⟩ = .home := by
  have hsegments : Url.segments ⟨base, view.text.toList :: rest, none, none⟩ =
      view.text.toList :: filledSegments rest := filledSegments_cons (fixed_view view).filled rest
  have hne : view.text.toList ≠ workspacePathSegment := by cases view <;> decide
  have hparam : trimmedParam ⟨base, view.text.toList :: rest, none, none⟩ "workspace" = none := rfl
  unfold parseAppUrl
  rw [hsegments, hparam]
  dsimp only
  rw [if_neg fun hhead => hne (List.cons.inj hhead).1, List.head?_cons,
    if_neg fun hhead => hne (Option.some.inj hhead)]

theorem clear_singleton {segment : List Char}
    (h : isSingleDot segment = false ∧ isDoubleDot segment = false) :
    ∀ s ∈ [segment], isSingleDot s = false ∧ isDoubleDot s = false := by
  intro s hs
  rw [List.mem_singleton.mp hs]
  exact h

section Links

variable [CharacterData]

/-- **The path leads to what is shown, dots apart.** -/
theorem leadsTo_shown (h : input.Identified) (he : input.Encodable)
    (hdots : ¬ IsDots input.workspaceLabel input.workspaceId) :
    ∃ path rest item location, workspacePath input = some path ∧
      DetailReads input rest item location ∧ ∀ route, LeadsTo hostParser base path route ↔
        .workspace item location input.view input.workspaceId = route := by
  obtain ⟨segment, detail, hcarries, hdetail, hpath⟩ := workspacePath_segments h he
  obtain ⟨rest, item, location, hrest, hreads⟩ := hdetail.reads
  have hclear : isSingleDot segment = false ∧ isDoubleDot segment = false :=
    ⟨Bool.eq_false_iff.mpr fun hd => hdots (.inl (hcarries.single.mp hd)),
      Bool.eq_false_iff.mpr fun hd => hdots (.inr (hcarries.double.mp hd))⟩
  have hresolved : resolveDots [workspacePathSegment] (segment :: input.view.text.toList :: detail) =
      workspacePathSegment :: segment :: input.view.text.toList :: rest := by
    have hfirst := @resolveDots_append [workspacePathSegment] _ (clear_singleton hclear)
      (input.view.text.toList :: detail)
    have hsecond := @resolveDots_append ([workspacePathSegment] ++ [segment]) _
      (clear_singleton (fixed_view input.view).clear) detail
    exact hfirst.trans (hsecond.trans (hrest _))
  refine ⟨_, rest, item, location, hpath, hreads, fun route => ?_⟩
  rw [leadsTo_segments hcarries.plain hdetail.plain, hresolved,
    parseAppUrl_named (segments_named hcarries.filled _) hcarries.reads,
    filledSegments_cons (fixed_view input.view).filled]
  dsimp only [List.getElem?_cons_zero, List.getElem?_cons_succ]
  rw [workspaceView_text, hreads.route]

/-- **A workspace whose identifier is a dot or two, without a label, is never reached**: one dot
    leaves the view in its place, and two take the segment before it away. -/
theorem not_leadsTo_dots (h : input.Identified) (he : input.Encodable)
    (hdots : IsDots input.workspaceLabel input.workspaceId) :
    ∃ path, workspacePath input = some path ∧ ∀ item location view,
      ¬ LeadsTo hostParser base path (.workspace item location view input.workspaceId) := by
  obtain ⟨segment, detail, hcarries, hdetail, hpath⟩ := workspacePath_segments h he
  obtain ⟨rest, -, -, hrest, -⟩ := hdetail.reads
  have hview : ∀ kept, resolveDots kept (input.view.text.toList :: detail) =
      kept ++ input.view.text.toList :: rest := by
    intro kept
    have hfirst := @resolveDots_append kept _ (clear_singleton (fixed_view input.view).clear) detail
    refine hfirst.trans ((hrest _).trans ?_)
    rw [List.append_assoc]
    rfl
  have hskip : resolveDots [workspacePathSegment] (segment :: input.view.text.toList :: detail) =
      resolveDots (if isDoubleDot segment then [] else if isSingleDot segment
        then [workspacePathSegment] else [workspacePathSegment, segment])
          (input.view.text.toList :: detail) := rfl
  refine ⟨_, hpath, fun item location view => ?_⟩
  rw [leadsTo_segments hcarries.plain hdetail.plain, hskip]
  by_cases hdouble : isDoubleDot segment = true
  · rw [if_pos hdouble, hview, List.nil_append, parseAppUrl_view]
    exact AppRoute.noConfusion
  · have hsingle : Alone input.workspaceLabel input.workspaceId "." :=
      hdots.resolve_right fun hd => hdouble (hcarries.double.mpr hd)
    have hreads : identifierSegment (some input.view.text.toList) = some (utf16 input.view.text) := by
      cases input.view <;> decide +kernel
    rw [if_neg hdouble, if_pos (hcarries.single.mpr hsingle), hview]
    show parseAppUrl ⟨base, workspacePathSegment :: input.view.text.toList :: rest, none, none⟩ = _ →
      False
    rw [parseAppUrl_named (segments_named (fixed_view input.view).filled _) hreads]
    intro hroute
    have hid : utf16 input.view.text = input.workspaceId := by
      unfold workspaceRoute at hroute
      exact (AppRoute.workspace.inj hroute).2.2.2
    rw [hsingle.2] at hid
    replace hid := utf16_injective hid
    revert hid
    cases input.view <;> decide

end Links

end Leads

/-! ## 7. Return paths -/

section Return

variable {hostParser : List Char → Option String} {base : Origin} {url : Url}

/-- The request names the workspace in a path of its own, behind an `@`. -/
structure NamesWorkspace (hostParser : List Char → Option String)
    (requested workspaceId : JsString) : Prop where
  rooted : requested.head? = some slashUnit
  names : ∃ url, parseRooted hostParser parseBaseUrl (toWellFormed requested) = some url ∧
    url.origin = parseBaseUrl ∧ ∃ segment rest,
      url.segments = workspacePathSegment :: segment :: rest ∧ '@' ∈ segment ∧
        identifierSegment (some segment) = some workspaceId

theorem decodedSegment_legible {segment : Option (List Char)} {id : JsString}
    (h : decodedSegment segment = some id) : Legible id := by
  unfold decodedSegment at h
  split at h
  · cases h
  · cases h
  · obtain ⟨decoded, -, hid⟩ := Option.bind_eq_some_iff.mp h
    split at hid
    · cases hid
    · rename_i hblank
      cases hid
      exact ⟨Bool.eq_false_iff.mpr hblank, isWellFormed_unitsOf decoded⟩

theorem identifierSegment_legible {segment : Option (List Char)} {id : JsString}
    (h : identifierSegment segment = some id) : Legible id := by
  obtain ⟨segment, -, h⟩ := Option.bind_eq_some_iff.mp h
  split at h
  · exact decodedSegment_legible h
  · exact decodedSegment_legible h

theorem trimmedParam_legible {name : String} {id : JsString} (h : trimmedParam url name = some id) :
    Legible id := by
  obtain ⟨hmem, hne⟩ := Option.filter_eq_some_iff.mp h
  obtain ⟨s, -, rfl⟩ := Option.map_eq_some_iff.mp hmem
  refine ⟨?_, isWellFormed_unitsOf _⟩
  rw [blankUnits_utf16, blank_trim]
  unfold blank
  refine beq_eq_false_iff_ne.mpr fun hempty => ?_
  rw [hempty] at hne
  revert hne
  decide

theorem ite_none_of_some {p : Prop} [Decidable p] {value : Option JsString} {id : JsString}
    (h : (if p then value else none) = some id) : value = some id := by
  split at h
  · exact h
  · cases h

/-- A route of a workspace has identifiers that a link can carry, and a path that begins as those
    of a workspace names it in its second segment. -/
theorem parseAppUrl_workspace {item location : Option JsString} {view : WorkspaceView}
    {id : JsString} (h : parseAppUrl url = .workspace item location view id) :
    (∀ x ∈ item, Legible x) ∧ (∀ x ∈ location, Legible x) ∧
      (url.segments.head? = some workspacePathSegment → ∃ segment rest,
        url.segments = workspacePathSegment :: segment :: rest ∧
          identifierSegment (some segment) = some id) := by
  unfold parseAppUrl at h
  dsimp only at h
  split at h
  · cases h
  · split at h
    · rename_i hhead
      split at h
      · cases h
      · rename_i workspaceId hid
        cases h
        refine ⟨fun x hx => ?_, fun x hx => ?_, fun _ => ?_⟩
        · exact identifierSegment_legible (ite_none_of_some (Option.mem_def.mp hx))
        · exact identifierSegment_legible (ite_none_of_some (Option.mem_def.mp hx))
        · cases hsegments : url.segments with
          | nil =>
              rw [hsegments] at hhead
              cases hhead
          | cons first rest =>
              rw [hsegments] at hhead hid
              obtain rfl := Option.some.inj hhead
              cases rest with
              | nil => cases hid
              | cons segment rest => exact ⟨segment, rest, rfl, hid⟩
    · rename_i hhead
      split at h
      · cases h
      · cases h
        refine ⟨fun x hx => ?_, fun x hx => ?_, fun h => absurd h hhead⟩
        · exact trimmedParam_legible (ite_none_of_some (Option.mem_def.mp hx))
        · rw [Option.mem_def] at hx
          split at hx
          · exact trimmedParam_legible hx
          · exact trimmedParam_legible hx

theorem identifierLabel_isSome (segment : List Char) :
    identifierLabel (some segment) ≠ none ↔ '@' ∈ segment := by
  unfold identifierLabel
  rw [Option.bind_some, ← splitIdentifier_isSome, ← Option.isSome_iff_ne_none, Option.isSome_map]

/-- What is made of texts can be written. -/
theorem encodable_of {input : WorkspacePathInput} (hworkspace : isWellFormed input.workspaceId = true)
    (hitem : ∀ id ∈ input.itemId, isWellFormed id = true)
    (hlocation : ∀ id ∈ input.locationId, isWellFormed id = true) : input.Encodable := by
  have hpresent : ∀ {text : Option JsString} {id : JsString}, presentText text = some id →
      text = some id := fun h => (Option.filter_eq_some_iff.mp h).1
  have hshown : ∀ id ∈ input.shownLocation, isWellFormed id = true := by
    intro id hid
    exact hlocation id (hpresent (ite_none_of_some (Option.mem_def.mp hid)))
  refine ⟨hworkspace, fun id hid => ?_, fun id hid => ?_⟩
  · exact hitem id (hpresent (ite_none_of_some (Option.mem_def.mp hid)))
  · exact hshown id (ite_none_of_some (Option.mem_def.mp hid))

theorem requestedView_none {workspaceId : JsString} {requested : Option JsString}
    (h : requestedView hostParser requested workspaceId = none) :
    ¬ ∃ text ∈ requested, NamesWorkspace hostParser text workspaceId := by
  rintro ⟨text, rfl, hrooted, url, hurl, horigin, segment, rest, hsegments, -, hreads⟩
  have hroute := parseAppUrl_named hsegments hreads
  unfold requestedView at h
  rw [Option.bind_some, if_neg (not_not.mpr hrooted), hurl, Option.bind_some,
    if_neg (not_not.mpr horigin), hroute] at h
  unfold workspaceRoute at h
  dsimp only at h
  rw [if_neg (not_not.mpr rfl)] at h
  cases h

/-- **The view that a request asks for is one of the workspace**, labelled where the request names
    the workspace behind an `@`. -/
theorem requestedView_some {workspaceId : JsString} (hid : Legible workspaceId)
    {requested : Option JsString} {input : WorkspacePathInput}
    (h : requestedView hostParser requested workspaceId = some input) :
    input.Identified ∧ input.Encodable ∧ input.workspaceId = workspaceId ∧
      (input.workspaceLabel ≠ none ↔
      ∃ text ∈ requested, NamesWorkspace hostParser text workspaceId) := by
  obtain ⟨text, htext, h⟩ := Option.bind_eq_some_iff.mp h
  split at h
  · cases h
  · rename_i hrooted
    obtain ⟨url, hurl, h⟩ := Option.bind_eq_some_iff.mp h
    split at h
    · cases h
    · rename_i horigin
      split at h
      · cases h
      · cases h
      · rename_i item location view routeId hroute
        obtain ⟨hitem, hlocation, hsecond⟩ := parseAppUrl_workspace hroute
        split at h
        · cases h
        · rename_i hsame
          obtain rfl := not_not.mp hsame
          cases h
          refine ⟨⟨hid.filled, fun x hx => (hitem x hx).filled, fun x hx => (hlocation x hx).filled⟩,
            encodable_of hid.text (fun x hx => (hitem x hx).text) (fun x hx => (hlocation x hx).text),
            rfl, ?_⟩
          dsimp only
          constructor
          · intro hlabel
            by_cases hhead : url.segments.head? = some workspacePathSegment
            · obtain ⟨segment, rest, hsegments, hreads⟩ := hsecond hhead
              rw [if_pos hhead, hsegments] at hlabel
              exact ⟨text, htext, not_not.mp hrooted, url, hurl, not_not.mp horigin, segment, rest,
                hsegments, (identifierLabel_isSome segment).mp hlabel, hreads⟩
            · exact absurd (if_neg hhead) hlabel
          · rintro ⟨text', htext', -, url', hurl', -, segment, rest, hsegments, hat, -⟩
            obtain rfl := Option.some.inj (htext.symm.trans htext')
            obtain rfl := Option.some.inj (hurl.symm.trans hurl')
            rw [hsegments, List.head?_cons, if_pos rfl]
            exact (identifierLabel_isSome segment).mpr hat

variable [CharacterData]

/-- **A return path is the path of a view of the workspace**, with a label where the request names
    the workspace behind an `@`. -/
theorem workspaceReturnTo_input {workspaceId : JsString} (h : Legible workspaceId)
    (requested : Option JsString) : ∃ input : WorkspacePathInput, input.Identified ∧
      input.Encodable ∧ input.workspaceId = workspaceId ∧
      workspaceReturnTo hostParser requested workspaceId = workspacePath input ∧
      (input.workspaceLabel ≠ none ↔
        ∃ text ∈ requested, NamesWorkspace hostParser text workspaceId) := by
  have hfallback : WorkspacePathInput.Identified { view := defaultWorkspaceView, workspaceId } :=
    ⟨h.filled, nofun, nofun⟩
  have hwritten : WorkspacePathInput.Encodable { view := defaultWorkspaceView, workspaceId } :=
    encodable_of h.text nofun nofun
  obtain ⟨_, _, -, -, hpath⟩ := workspacePath_segments hfallback hwritten
  unfold workspaceReturnTo
  rw [hpath, Option.map_some]
  cases hview : requestedView hostParser requested workspaceId with
  | none => exact ⟨_, hfallback, hwritten, rfl, hpath.symm,
      iff_of_false (fun hne => hne rfl) (requestedView_none hview)⟩
  | some input =>
      obtain ⟨hidentified, hencodable, hid, hlabel⟩ := requestedView_some h hview
      obtain ⟨_, _, -, -, hrequested⟩ := workspacePath_segments hidentified hencodable
      refine ⟨input, hidentified, hencodable, hid, ?_, hlabel⟩
      rw [Option.bind_some, hrequested]
      rfl

end Return

/-! ## 8. Links round trip -/

section RoundTrip

variable {input : WorkspacePathInput}

/-- What is shown is what was given, where the view has a place for it. -/
theorem placed_iff (h : input.Identified) :
    input.Placed ↔ input.shownItem = input.itemId ∧ input.namedLocation = input.locationId := by
  unfold WorkspacePathInput.namedLocation
  rw [shownItem_eq h, shownLocation_eq h]
  constructor
  · rintro ⟨hitem, hlocation⟩
    have hshown : (if input.view = .inventory then input.itemId else none) = input.itemId := by
      by_cases hview : input.view = .inventory
      · rw [if_pos hview]
      · rw [if_neg hview]
        by_contra hne
        exact hview (hitem (Ne.symm hne))
    refine ⟨hshown, ?_⟩
    rw [hshown]
    cases hgiven : input.locationId with
    | none => rw [ite_self, ite_self]
    | some location =>
        obtain ⟨hview, hnone⟩ := hlocation (by rw [hgiven]; exact Option.some_ne_none _)
        rw [if_pos hnone, if_pos hview]
  · rintro ⟨hitem, hlocation⟩
    rw [hitem] at hlocation
    refine ⟨fun hne => ?_, fun hne => ?_⟩
    · by_contra hview
      rw [if_neg hview] at hitem
      exact hne hitem.symm
    · by_cases hnone : input.itemId = none
      · rw [if_pos hnone] at hlocation
        refine ⟨?_, hnone⟩
        by_contra hview
        rw [if_neg hview] at hlocation
        exact hne hlocation.symm
      · rw [if_neg hnone] at hlocation
        exact absurd hlocation.symm hne

theorem isDots_none (id : JsString) : IsDots none id ↔ id = utf16 "." ∨ id = utf16 ".." :=
  or_congr (and_iff_right rfl) (and_iff_right rfl)

theorem IsDots.label {label : RouteLabel} {id : JsString} (h : IsDots label id) : label = none :=
  h.elim And.left And.left

variable {hostParser : List Char → Option String} {base : Origin} [CharacterData]

/-- **A path leads to what it was made for, where no identifier is a dot or two without a
    label**: to its workspace where that one is not, and to what is shown where none is. -/
theorem leadsTo_given (h : input.Identified) (he : input.Encodable) : ∃ path, workspacePath input = some path ∧
    ((∃ item location view,
      LeadsTo hostParser base path (.workspace item location view input.workspaceId)) ↔
        ¬ IsDots input.workspaceLabel input.workspaceId) ∧
    ∀ item location, (item = none → input.shownItem = none) →
      (location = none → input.namedLocation = none) →
      (LeadsTo hostParser base path (.workspace item location input.view input.workspaceId) ↔
        (item = input.shownItem ∧ location = input.namedLocation) ∧ input.Apart) := by
  by_cases hdots : IsDots input.workspaceLabel input.workspaceId
  · obtain ⟨path, hpath, hnever⟩ := @not_leadsTo_dots hostParser base _ _ h he hdots
    refine ⟨path, hpath, iff_of_false ?_ (not_not.mpr hdots), fun item location _ _ => ?_⟩
    · rintro ⟨item, location, view, hleads⟩
      exact hnever item location view hleads
    · exact iff_of_false (hnever item location _) fun hapart => hapart.2.workspace hdots
  · obtain ⟨path, rest, item, location, hpath, hreads, hleads⟩ :=
      @leadsTo_shown hostParser base _ _ h he hdots
    refine ⟨path, hpath, iff_of_true ⟨item, location, input.view, (hleads _).mpr rfl⟩ hdots,
      fun item' location' hitem' hlocation' => ?_⟩
    rw [hleads]
    by_cases hdetail : input.DotDetail
    · refine iff_of_false (fun hroute => ?_) fun hapart => hapart.2.detail hdetail
      obtain ⟨hitem, hlocation, -⟩ := AppRoute.workspace.inj hroute
      obtain ⟨hnone, hnone', hshown⟩ := hreads.dots hdetail
      rcases hshown with hshown | hshown
      · exact hshown (hitem' (hitem.symm.trans hnone))
      · exact hshown (hlocation' (hlocation.symm.trans hnone'))
    · obtain ⟨rfl, rfl⟩ := hreads.apart hdetail
      constructor
      · intro hroute
        obtain ⟨hitem, hlocation, -⟩ := AppRoute.workspace.inj hroute
        exact ⟨⟨hitem.symm, hlocation.symm⟩, hdots, hdetail⟩
      · rintro ⟨⟨rfl, rfl⟩, -⟩
        rfl

/-- **Links round trip exactly where each identifier in them is a text, and none is a dot or two
    without a label.** A path leads back to what it shows, and to all that was given where the view
    has a place for it; a return path is a route of its workspace, unless the workspace's identifier
    is no text, or is a dot or two and the request does not name it behind an `@`. -/
theorem workspacePath_leadsTo (hostParser : List Char → Option String) (base : Origin) :
    (∀ input : WorkspacePathInput, input.Identified →
      ((∃ path, workspacePath input = some path ∧ LeadsTo hostParser base path
          (.workspace input.shownItem input.namedLocation input.view input.workspaceId)) ↔
        input.Encodable ∧ input.Apart) ∧
      ((∃ path, workspacePath input = some path ∧ LeadsTo hostParser base path
          (.workspace input.itemId input.locationId input.view input.workspaceId)) ↔
        input.Encodable ∧ input.Placed ∧ input.Apart)) ∧
    ∀ (requested : Option JsString) (workspaceId : JsString), blankUnits workspaceId = false →
      ((∃ path, workspaceReturnTo hostParser requested workspaceId = some path ∧
          ∃ item location view,
            LeadsTo hostParser base path (.workspace item location view workspaceId)) ↔
        isWellFormed workspaceId = true ∧ ((workspaceId ≠ utf16 "." ∧ workspaceId ≠ utf16 "..") ∨
          ∃ text ∈ requested, NamesWorkspace hostParser text workspaceId)) := by
  constructor
  · intro input h
    by_cases he : input.Encodable
    · obtain ⟨path, hpath, -, hroute⟩ := @leadsTo_given _ hostParser base _ h he
      rw [hpath, and_iff_right he, and_iff_right he]
      have hone : ∀ route, (∃ path', some path = some path' ∧ LeadsTo hostParser base path' route) ↔
          LeadsTo hostParser base path route := by
        intro route
        constructor
        · rintro ⟨path', hsame, hleads⟩
          rwa [Option.some.inj hsame]
        · exact fun hleads => ⟨path, rfl, hleads⟩
      rw [hone, hone]
      constructor
      · rw [hroute _ _ id id]
        exact and_iff_right ⟨rfl, rfl⟩
      · have hitem : input.itemId = none → input.shownItem = none := by
          intro hnone
          rw [shownItem_eq h, hnone, ite_self]
        have hlocation : input.locationId = none → input.namedLocation = none := by
          intro hnone
          unfold WorkspacePathInput.namedLocation
          rw [shownLocation_eq h, hnone, ite_self, ite_self]
        rw [hroute _ _ hitem hlocation, placed_iff h, eq_comm (b := input.shownItem),
          eq_comm (b := input.namedLocation)]
    · have hnever : ∀ route, ¬ ∃ path, workspacePath input = some path ∧
          LeadsTo hostParser base path route := by
        rintro route ⟨path, hpath, -⟩
        rw [workspacePath_none he] at hpath
        cases hpath
      exact ⟨iff_of_false (hnever _) fun hall => he hall.1,
        iff_of_false (hnever _) fun hall => he hall.1⟩
  · intro requested workspaceId h
    cases htext : isWellFormed workspaceId with
    | false =>
        refine iff_of_false ?_ fun hall => Bool.false_ne_true hall.1
        rintro ⟨path, hpath, -⟩
        have hnone : workspacePath { view := defaultWorkspaceView, workspaceId } = none := by
          refine workspacePath_none fun he => ?_
          rw [he.workspace] at htext
          cases htext
        unfold workspaceReturnTo at hpath
        rw [hnone] at hpath
        cases hpath
    | true =>
        obtain ⟨input, hidentified, hencodable, rfl, hreturn, hlabel⟩ :=
          @workspaceReturnTo_input hostParser _ workspaceId ⟨h, htext⟩ requested
        obtain ⟨path, hpath, hroute, -⟩ := @leadsTo_given _ hostParser base _ hidentified hencodable
        rw [hreturn, hpath, and_iff_right rfl, ← hlabel]
        refine Iff.trans ⟨?_, fun hleads => ⟨path, rfl, hleads⟩⟩ (hroute.trans ?_)
        · rintro ⟨path', hsame, hleads⟩
          rwa [Option.some.inj hsame]
        · cases input.workspaceLabel with
          | none =>
              rw [isDots_none, not_or]
              exact (or_iff_left fun hne => hne rfl).symm
          | some label =>
              exact iff_of_true (fun hdots => Option.some_ne_none _ hdots.label)
                (.inr (Option.some_ne_none _))

end RoundTrip

/-- The characters of ASCII, with nothing to decompose. -/
@[reducible] def asciiCharacters : CharacterData where
  nfkd text := text
  toLowerCase text := text.map Char.toLower
  isMark _ := false
  isLetter c := c.isAlpha
  isNumber c := c.isDigit

/-- An item whose identifier is two dots, behind a label, in a workspace whose identifier holds a
    slash and an `@`. -/
def labelledItem : WorkspacePathInput where
  itemId := some (utf16 "..")
  itemLabel := some (some (utf16 "Winter Coats"))
  view := .inventory
  workspaceId := utf16 "a/b@c"

/-- The case of `labelledItem`, and of a request that names no workspace. -/
theorem workspacePath_leadsTo_labelled :
    (∃ path, @workspacePath asciiCharacters labelledItem = some path ∧
      LeadsTo plainHost parseBaseUrl path
        (.workspace (some (utf16 "..")) none .inventory (utf16 "a/b@c"))) ∧
    ∃ path, @workspaceReturnTo asciiCharacters plainHost (some (utf16 "/elsewhere")) (utf16 "w") =
        some path ∧ ∃ item location view,
      LeadsTo plainHost parseBaseUrl path (.workspace item location view (utf16 "w")) := by
  obtain ⟨hpaths, hreturns⟩ := @workspacePath_leadsTo asciiCharacters plainHost parseBaseUrl
  constructor
  · refine (hpaths labelledItem ⟨by decide +kernel, by decide +kernel, nofun⟩).2.mpr ⟨?_, ?_, ?_, ?_⟩
    · exact encodable_of (by decide +kernel) (by decide +kernel) nofun
    · exact ⟨fun _ => rfl, fun hne => absurd rfl hne⟩
    · rintro (⟨-, hid⟩ | ⟨-, hid⟩)
      · revert hid
        decide +kernel
      · revert hid
        decide +kernel
    · rintro (⟨_, _, hdots⟩ | ⟨id, hid, -⟩)
      · exact Option.some_ne_none _ hdots.label
      · cases hid
  · exact (hreturns (some (utf16 "/elsewhere")) (utf16 "w") (by decide +kernel)).mpr
      ⟨by decide +kernel, .inl (by decide +kernel)⟩

/-- **A workspace whose identifier is a dot is not reached**: its path, and the path that a sign-in
    returns to, lead to the workspace `capture`. And one whose identifier is no text has no path. -/
theorem workspacePath_loses :
    (@workspacePath asciiCharacters { view := .capture, workspaceId := utf16 "." } =
        some "/workspaces/./capture" ∧
      @workspaceReturnTo asciiCharacters plainHost none (utf16 ".") = some "/workspaces/./capture" ∧
      LeadsTo plainHost parseBaseUrl "/workspaces/./capture"
        (.workspace none none .capture (utf16 "capture"))) ∧
    @workspacePath asciiCharacters { view := .capture, workspaceId := [0xD800] } = none ∧
    @workspaceReturnTo asciiCharacters plainHost none [0xD800] = none := by
  refine ⟨⟨by decide +kernel, by decide +kernel, ?_⟩, by decide +kernel, by decide +kernel⟩
  unfold LeadsTo
  decide +kernel

end Stowplan
