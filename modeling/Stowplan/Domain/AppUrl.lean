/-
  File:      Stowplan/Domain/AppUrl.lean
  Subject:   WHERE A SIGN-IN RETURNS TO (app-url.ts): the path a caller asked for, where it stays on
  the site and shows no invitation.

  The request is resolved against a base of its own and refused where the origin differs; then the
  request itself is decoded again and again, and refused where a decoding shows an invitation. What
  is returned is the path as it was resolved. The browser resolves it once more.

  * `oauthReturnTo`;
  * `StaysOnSite`: what is asked of the path that is returned;
  * `AsShown`: what a browser reads in the request is as harmless as the request looks;
  * `oauthReturnTo_staysOnSite`: the one holds exactly where the other does.
-/
import Stowplan.Js.Text
import Stowplan.Js.Url

namespace Stowplan

/-! ## 1. The function -/

/-- `GUEST_INVITATION_RETURN_TO_MAX_CHARACTERS`. -/
def guestInvitationReturnToMaxCharacters : Nat := 2048

/-- `INVITATION_OAUTH_RESUME_PATH`. -/
def invitationOauthResumePath : String := "/account?resume=invitation"

/-- `PARSE_BASE_URL`. -/
def parseBaseUrl : Origin := ⟨.https, "stowplan.invalid", none⟩

/-- `(?:[/?#]|$)`. -/
def separatorOrEnd : List Char → Bool
  | [] => true
  | c :: _ => c == '/' || c == '?' || c == '#'

/-- The word stands at the beginning, and a separator or nothing after it. -/
def startsWithSegment : List Char → List Char → Bool
  | [], rest => separatorOrEnd rest
  | _ :: _, [] => false
  | p :: word, c :: rest => p == c && startsWithSegment word rest

/-- `INVITATION_PATH_PATTERN.test(text)`. -/
def invitationPathPattern : List Char → Bool
  | [] => false
  | c :: rest => startsWithSegment "/guest".toList (c :: rest) || invitationPathPattern rest

/-- `INVITATION_PATH_PATTERN.test(text.toLowerCase())`. No character but its capital has a letter
    of the pattern in its lower case. -/
def showsInvitation (text : List Char) : Bool := invitationPathPattern (text.map Char.toLower)

/-- What decoding a return path layer by layer comes to. -/
inductive DecodeVerdict where
  | harmless | invitation | malformed
  deriving DecidableEq

/-- The loop of `oauthReturnTo`. -/
def decodeLoop : Nat → List Char → DecodeVerdict
  | 0, _ => .malformed
  | passes + 1, decoded =>
    if showsInvitation decoded then .invitation
    else match decodeURIComponent decoded with
      | none => .malformed
      | some next => if next = decoded then .harmless else decodeLoop passes next

section Return

variable (hostParser : List Char → Option String)

/-- `oauthReturnTo(requested)`: the return path of a sign-in, or the start page. -/
def oauthReturnTo (requested : Option String) : String :=
  match requested with
  | none => "/"
  | some requested =>
    if requested.toList.head? ≠ some '/' ||
        decide (guestInvitationReturnToMaxCharacters < utf16Length requested) then "/"
    else match parseRooted hostParser parseBaseUrl requested.toList with
      | none => "/"
      | some resolved =>
        if resolved.origin ≠ parseBaseUrl then "/"
        else match decodeLoop (utf16Length requested / 2 + 1) requested.toList with
          | .invitation => invitationOauthResumePath
          | .malformed => "/"
          | .harmless => String.ofList resolved.text

/-! ## 2. What is asked of it -/

/-- A browser on the site that follows the path stays there, and no decoding of the path shows an
    invitation. -/
structure StaysOnSite (site : Origin) (path : List Char) : Prop where
  origin : ∃ url, parseRooted hostParser site path = some url ∧ url.origin = site
  noInvitation : ∀ k decoded, decodings k path = some decoded → showsInvitation decoded = false

/-- The checks of `oauthReturnTo` pass: the request is a path, no longer than allowed, of the base's
    own origin, and each of its decodings is well formed and shows no invitation. -/
structure Passes (requested : String) : Prop where
  rooted : requested.toList.head? = some '/'
  short : utf16Length requested ≤ guestInvitationReturnToMaxCharacters
  origin : (referenceOf requested.toList).hostPort hostParser parseBaseUrl =
    some (parseBaseUrl.host, parseBaseUrl.port)
  decodes : ∀ k, ∃ decoded, decodings k requested.toList = some decoded ∧
    showsInvitation decoded = false

/-- What a browser reads in the request, past blanks, tabs, newlines, backslashes and dot segments,
    is as harmless as the request itself: the path does not begin with two slashes that name
    another authority than the site's, and no decoding shows an invitation. -/
structure AsShown (site : Origin) (requested : String) : Prop where
  path : ∀ authority ∈ hiddenAuthority (resolveDots [] (referenceOf requested.toList).segments),
    parseAuthority hostParser site.scheme authority = some (site.host, site.port)
  noInvitation : ∀ k decoded, decodings k (referenceOf requested.toList).shown = some decoded →
    showsInvitation decoded = false

end Return

/-! ## 3. The loop -/

section Loop

variable {text : List Char}

theorem decodings_fixed (h : decodeURIComponent text = some text) (k : Nat) :
    decodings k text = some text := by
  induction k with
  | zero => rfl
  | succ k ih =>
      unfold decodings
      rw [h, Option.bind_some, ih]

/-- **The loop tells whether each decoding is well formed and harmless**: it takes no more passes
    than half the length and one. -/
theorem decodeLoop_harmless {passes : Nat} (h : units text < 2 * passes) :
    decodeLoop passes text = .harmless ↔
      ∀ k, ∃ decoded, decodings k text = some decoded ∧ showsInvitation decoded = false := by
  induction passes generalizing text with
  | zero => omega
  | succ passes ih =>
      unfold decodeLoop
      by_cases hshows : showsInvitation text = true
      · rw [if_pos hshows]
        refine iff_of_false nofun fun hall => ?_
        obtain ⟨decoded, hdecoded, hharmless⟩ := hall 0
        cases hdecoded
        rw [hshows] at hharmless
        cases hharmless
      · rw [if_neg hshows]
        have hharmless : showsInvitation text = false := Bool.eq_false_iff.mpr hshows
        cases hnext : decodeURIComponent text with
        | none =>
            refine iff_of_false nofun fun hall => ?_
            obtain ⟨decoded, hdecoded, -⟩ := hall 1
            unfold decodings at hdecoded
            rw [hnext] at hdecoded
            cases hdecoded
        | some next =>
            dsimp only
            by_cases hsame : next = text
            · rw [if_pos hsame]
              refine iff_of_true rfl fun k => ⟨text, decodings_fixed (hsame ▸ hnext) k, hharmless⟩
            · rw [if_neg hsame]
              have hshorter := (decodeURIComponent_shorter hnext).resolve_left hsame
              rw [ih (by omega)]
              have hstep : ∀ k, decodings (k + 1) text = decodings k next := by
                intro k
                show (decodeURIComponent text).bind (decodings k) = _
                rw [hnext]
                rfl
              constructor
              · intro hall k
                cases k with
                | zero => exact ⟨text, rfl, hharmless⟩
                | succ k =>
                    rw [hstep]
                    exact hall k
              · intro hall k
                rw [← hstep]
                exact hall (k + 1)

end Loop

/-! ## 4. Escapes show nothing -/

section Shows

variable {text text' : List Char}

/-- A character of the pattern: a slash or a letter. -/
def PatternChar (c : Char) : Prop := c = '/' ∨ c.isAlphanum = true

instance (c : Char) : Decidable (PatternChar c) := inferInstanceAs (Decidable (_ ∨ _))

theorem toLower_of_not_alphanum {c : Char} (h : c.isAlphanum = false) : c.toLower = c := by
  have hupper : c.isUpper = false := by
    unfold Char.isAlphanum Char.isAlpha at h
    exact (Bool.or_eq_false_iff.mp (Bool.or_eq_false_iff.mp h).1).1
  have hrange : ¬ (c.val ≥ 'A'.val ∧ c.val ≤ 'Z'.val) := by
    unfold Char.isUpper at hupper
    simpa using hupper
  unfold Char.toLower
  rw [dif_neg hrange]

theorem Escapable.lower {c : Char} (h : Escapable c) : c.toLower = c :=
  toLower_of_not_alphanum h.1

theorem Escapable.not_pattern {c p : Char} (h : Escapable c) (hp : PatternChar p) :
    (p == c.toLower) = false := by
  rw [h.lower, beq_eq_false_iff_ne]
  rintro rfl
  rcases hp with hp | hp
  · exact h.2.2.1 hp
  · rw [h.1] at hp
    cases hp

theorem percent_not_pattern {p : Char} (hp : PatternChar p) :
    (p == '%'.toLower) = false := by
  rw [beq_eq_false_iff_ne]
  rintro rfl
  rcases hp with hp | hp
  · revert hp
    decide
  · revert hp
    decide

theorem escapeChar_cons (c : Char) : ∃ rest, escapeChar c = '%' :: rest := by
  obtain ⟨b, bs, -, h⟩ := escapeChar_percent c
  exact ⟨_, h⟩

theorem Escapes.startsWithSegment {word : List Char} (hword : ∀ p ∈ word, PatternChar p)
    (h : Escapes text text') : Stowplan.startsWithSegment word (text'.map Char.toLower) =
      Stowplan.startsWithSegment word (text.map Char.toLower) := by
  induction word generalizing text text' with
  | nil =>
      cases h with
      | nil => rfl
      | same c h => rfl
      | @escaped c text text' hc h =>
          obtain ⟨rest, hrest⟩ := escapeChar_cons c
          have hlower := hc.lower
          obtain ⟨-, -, hslash, hquery, hhash⟩ := hc
          rw [hrest, List.cons_append, List.map_cons, List.map_cons, hlower]
          show ('%'.toLower == '/' || '%'.toLower == '?' || '%'.toLower == '#') =
            (c == '/' || c == '?' || c == '#')
          rw [beq_eq_false_iff_ne.mpr hslash, beq_eq_false_iff_ne.mpr hquery,
            beq_eq_false_iff_ne.mpr hhash]
          rfl
  | cons p word ih =>
      have hp := hword p List.mem_cons_self
      cases h with
      | nil => rfl
      | same c h =>
          show (p == c.toLower && _) = (p == c.toLower && _)
          rw [ih (fun q hq => hword q (List.mem_cons_of_mem _ hq)) h]
      | @escaped c text text' hc h =>
          obtain ⟨rest, hrest⟩ := escapeChar_cons c
          rw [hrest]
          show (p == '%'.toLower && _) = (p == c.toLower && _)
          rw [percent_not_pattern hp, hc.not_pattern hp]
          rfl

theorem showsInvitation_cons (c : Char) (text : List Char) : showsInvitation (c :: text) =
    (Stowplan.startsWithSegment "/guest".toList ((c :: text).map Char.toLower) ||
      showsInvitation text) := rfl

/-- No invitation begins at a character that is no slash. -/
theorem showsInvitation_skip {skipped : List Char} (h : ∀ c ∈ skipped, c.toLower ≠ '/')
    (text : List Char) : showsInvitation (skipped ++ text) = showsInvitation text := by
  induction skipped with
  | nil => rfl
  | cons c skipped ih =>
      have hstart : Stowplan.startsWithSegment "/guest".toList
          ((c :: (skipped ++ text)).map Char.toLower) = false := by
        show ('/' == c.toLower && _) = false
        rw [beq_eq_false_iff_ne.mpr (h c List.mem_cons_self).symm]
        rfl
      rw [List.cons_append, showsInvitation_cons, hstart, Bool.false_or]
      exact ih fun c hc => h c (List.mem_cons_of_mem _ hc)

theorem guest_patternChars : ∀ p ∈ "/guest".toList, PatternChar p := by
  have hall : "/guest".toList.all (fun p => decide (PatternChar p)) = true := by decide
  exact fun p hp => of_decide_eq_true (List.all_eq_true.mp hall p hp)

/-- **A text and the same text escaped show the same.** -/
theorem Escapes.showsInvitation (h : Escapes text text') :
    Stowplan.showsInvitation text' = Stowplan.showsInvitation text := by
  induction h with
  | nil => rfl
  | same c h ih =>
      have hstart := (Escapes.same c h).startsWithSegment guest_patternChars
      rw [showsInvitation_cons, showsInvitation_cons, hstart, ih]
  | @escaped c text text' hc h ih =>
      have hslash : c.toLower ≠ '/' := by
        rw [hc.lower]
        exact hc.2.2.1
      have hcode : ∀ d ∈ escapeChar c, d.toLower ≠ '/' := by
        have hdigits : ∀ n < 16, (hexDigit n).toLower ≠ '/' := by decide
        have hall : ∀ d ∈ percentEncode (fun _ => true) [c], d.toLower ≠ '/' :=
          forall_percentEncode (by decide) hdigits fun _ _ h => by cases h
        unfold percentEncode at hall
        rw [List.flatMap_singleton] at hall
        exact hall
      rw [showsInvitation_skip hcode, ih]
      have hskip : ∀ d ∈ [c], d.toLower ≠ '/' := fun d hd => List.mem_singleton.mp hd ▸ hslash
      exact (showsInvitation_skip hskip text).symm

end Shows

/-! ## 5. The path that is returned -/

section Returned

variable {hostParser : List Char → Option String} {site : Origin} {requested : String}

theorem utf16Length_units (s : String) : utf16Length s = units s.toList := rfl

theorem parseRooted_some {base : Origin} {input : List Char} {url : Url}
    (h : parseRooted hostParser base input = some url) :
    url.text = (referenceOf input).text ∧
      (referenceOf input).hostPort hostParser base = some (url.origin.host, url.origin.port) ∧
      url.origin.scheme = base.scheme := by
  obtain ⟨hostPort, hhost, rfl⟩ := Option.map_eq_some_iff.mp h
  exact ⟨rfl, hhost, rfl⟩

/-- A path keeps the origin of its base where it has the host and the port of the base. -/
theorem parseRooted_origin {base : Origin} {input : List Char} :
    (∃ url, parseRooted hostParser base input = some url ∧ url.origin = base) ↔
      (referenceOf input).hostPort hostParser base = some (base.host, base.port) := by
  constructor
  · rintro ⟨url, hurl, horigin⟩
    rw [(parseRooted_some hurl).2.1, horigin]
  · intro h
    unfold parseRooted
    dsimp only
    rw [h]
    exact ⟨_, rfl, rfl⟩

/-- **What passes is returned as it was resolved.** -/
theorem oauthReturnTo_passes (h : Passes hostParser requested) :
    oauthReturnTo hostParser (some requested) =
      String.ofList (referenceOf requested.toList).text := by
  obtain ⟨url, hurl, horigin⟩ := parseRooted_origin.mpr h.origin
  have hlength : units requested.toList < 2 * (utf16Length requested / 2 + 1) := by
    rw [utf16Length_units]
    omega
  have hloop := (decodeLoop_harmless hlength).mpr h.decodes
  have hguard : (decide (requested.toList.head? ≠ some '/') ||
      decide (guestInvitationReturnToMaxCharacters < utf16Length requested)) = false := by
    rw [Bool.or_eq_false_iff, decide_eq_false_iff_not, decide_eq_false_iff_not]
    exact ⟨fun hne => hne h.rooted, Nat.not_lt.mpr h.short⟩
  unfold oauthReturnTo
  dsimp only
  rw [hguard, if_neg Bool.false_ne_true, hurl]
  dsimp only
  rw [if_neg fun hne => hne horigin, hloop]
  dsimp only
  rw [(parseRooted_some hurl).1]

/-- What does not pass is not returned. -/
theorem oauthReturnTo_refused (h : ¬ Passes hostParser requested) :
    oauthReturnTo hostParser (some requested) = "/" ∨
      oauthReturnTo hostParser (some requested) = invitationOauthResumePath := by
  unfold oauthReturnTo
  dsimp only
  split
  · exact .inl rfl
  · rename_i hguard
    split
    · exact .inl rfl
    · rename_i resolved hresolved
      split
      · exact .inl rfl
      · rename_i horigin
        split
        · exact .inr rfl
        · exact .inl rfl
        · rename_i hloop
          refine absurd ?_ h
          rw [Bool.or_eq_true, decide_eq_true_eq, decide_eq_true_eq] at hguard
          obtain ⟨hrooted, hshort⟩ := not_or.mp hguard
          refine ⟨not_not.mp hrooted, Nat.le_of_not_lt hshort,
            parseRooted_origin.mp ⟨resolved, hresolved, not_not.mp horigin⟩, ?_⟩
          exact (decodeLoop_harmless (by rw [utf16Length_units]; omega)).mp hloop

theorem hostPort_none {reference : Reference} (h : reference.authority = none) (base : Origin) :
    reference.hostPort hostParser base = some (base.host, base.port) := by
  unfold Reference.hostPort
  rw [h]

/-- A path of ours stays on the site. -/
theorem staysOnSite_plain {path : List Char} (hreference : (referenceOf path).authority = none)
    (hdecode : decodeURIComponent path = some path) (hshows : showsInvitation path = false) :
    StaysOnSite hostParser site path where
  origin := parseRooted_origin.mpr (hostPort_none hreference site)
  noInvitation := by
    intro k decoded hdecoded
    rw [decodings_fixed hdecode k] at hdecoded
    cases hdecoded
    exact hshows

/-- **The path that was resolved** stays on the site where what a browser reads is as shown. -/
theorem staysOnSite_resolved :
    StaysOnSite hostParser site (referenceOf requested.toList).text ↔
      AsShown hostParser site requested := by
  have hcut : (referenceOf requested.toList).Cut := readReference_cut _
  have hauthority := hcut.reread
  have horigin : (referenceOf (referenceOf requested.toList).text).hostPort hostParser site =
      some (site.host, site.port) ↔
      ∀ authority ∈ hiddenAuthority (resolveDots [] (referenceOf requested.toList).segments),
        parseAuthority hostParser site.scheme authority = some (site.host, site.port) := by
    unfold Reference.hostPort
    rw [hauthority]
    cases hiddenAuthority (resolveDots [] (referenceOf requested.toList).segments) with
    | none => exact iff_of_true rfl nofun
    | some authority =>
        dsimp only
        exact ⟨fun h _ hmem => Option.mem_some_iff.mp hmem ▸ h, fun h => h authority rfl⟩
  have hshows : (∀ k decoded, decodings k (referenceOf requested.toList).text = some decoded →
      showsInvitation decoded = false) ↔ ∀ k decoded,
        decodings k (referenceOf requested.toList).shown = some decoded →
          showsInvitation decoded = false := by
    refine forall_congr' fun k => ?_
    cases k with
    | zero =>
        unfold decodings
        constructor
        · rintro h decoded ⟨⟩
          rw [← hcut.escapes.showsInvitation]
          exact h _ rfl
        · rintro h decoded ⟨⟩
          rw [hcut.escapes.showsInvitation]
          exact h _ rfl
    | succ k => rw [hcut.escapes.decodings]
  constructor
  · exact fun h => ⟨horigin.mp (parseRooted_origin.mp h.origin), hshows.mp h.noInvitation⟩
  · exact fun h => ⟨parseRooted_origin.mpr (horigin.mpr h.path), hshows.mpr h.noInvitation⟩

end Returned

/-! ## 6. What is returned stays on the site -/

/-- **The path that a sign-in returns to stays on the site and shows no invitation, exactly where
    a request that passes the checks reads to a browser as it is shown.** -/
theorem oauthReturnTo_staysOnSite (hostParser : List Char → Option String) (site : Origin)
    (requested : Option String) :
    StaysOnSite hostParser site (oauthReturnTo hostParser requested).toList ↔
      ∀ text ∈ requested, Passes hostParser text → AsShown hostParser site text := by
  have hroot : StaysOnSite hostParser site "/".toList :=
    staysOnSite_plain (by decide) (by decide) (by decide)
  have hresume : StaysOnSite hostParser site invitationOauthResumePath.toList :=
    staysOnSite_plain (by decide) (by decide) (by decide)
  cases requested with
  | none => exact iff_of_true hroot nofun
  | some text =>
      have hsome : (∀ text' ∈ some text, Passes hostParser text' → AsShown hostParser site text') ↔
          (Passes hostParser text → AsShown hostParser site text) :=
        ⟨fun h => h text rfl, fun h _ hmem => Option.mem_some_iff.mp hmem ▸ h⟩
      rw [hsome]
      by_cases hpasses : Passes hostParser text
      · rw [oauthReturnTo_passes hpasses, String.toList_ofList, staysOnSite_resolved]
        exact ⟨fun h _ => h, fun h => h hpasses⟩
      · refine iff_of_true ?_ fun h => absurd h hpasses
        rcases oauthReturnTo_refused hpasses with h | h
        · rw [h]
          exact hroot
        · rw [h]
          exact hresume

/-- A host parser for names of small letters and dots. -/
def plainHost (text : List Char) : Option String :=
  if text.all fun c => c.isLower || c == '.' then some (String.ofList text) else none

/-- **A path that begins with a dot segment leaves the site**: what is returned begins with two
    slashes. And a tab within a word hides an invitation. -/
theorem oauthReturnTo_leaves :
    (oauthReturnTo plainHost (some "/.//attacker.test") = "//attacker.test" ∧
      ¬ StaysOnSite plainHost ⟨.https, "stowplan.test", none⟩
        (oauthReturnTo plainHost (some "/.//attacker.test")).toList) ∧
    (oauthReturnTo plainHost (some "/gu\test/raw") = "/guest/raw" ∧
      ¬ StaysOnSite plainHost ⟨.https, "stowplan.test", none⟩
        (oauthReturnTo plainHost (some "/gu\test/raw")).toList) := by
  have hleaves : oauthReturnTo plainHost (some "/.//attacker.test") = "//attacker.test" := by
    decide +kernel
  have hhidden : oauthReturnTo plainHost (some "/gu\test/raw") = "/guest/raw" := by
    decide +kernel
  refine ⟨⟨hleaves, fun h => ?_⟩, hhidden, fun h => ?_⟩
  · rw [hleaves] at h
    have hport := parseRooted_origin.mp h.origin
    revert hport
    decide +kernel
  · rw [hhidden] at h
    have hshows := h.noInvitation 0 _ rfl
    revert hshows
    decide +kernel

end Stowplan
