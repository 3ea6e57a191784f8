/-
  File:      Stowplan/Shared/LiveCollaboration.lean
  Subject:   CAPABILITIES OF THE LIVE RELAY (live-collaboration.ts): signing and verifying.

  A capability is a JSON text, written in base64url, with a signature behind a dot. Verifying takes
  a token of 4096 characters at most, checks the signature, reads the text and checks its time and
  its origin. The keyed hash and the parser of absolute URLs are parameters.

  * `signLiveCapability`, `verifyLiveCapability`;
  * `decodeBase64Url_encode`: bytes are read back, if there are any;
  * `Admitted`: what `parseCapabilityPayload` asks of a payload;
  * `verify_signed`: a token of an admitted payload verifies where it is not too long;
  * `verify_only`: a token whose signature the server made verifies to what was signed.
-/
import Stowplan.Js.Base64
import Stowplan.Js.JsonParse
import Stowplan.Js.JsonSize
import Stowplan.Lib.Outcome
import Mathlib.Data.Set.Function

namespace Stowplan

/-! ## 1. Base64url -/

/-- The text without the equals signs at its end. -/
def trimEquals (text : List Char) : List Char :=
  (text.reverse.dropWhile fun c => c == '=').reverse

/-- One character for another. -/
def swapChar (old new c : Char) : Char := if c = old then new else c

/-- `text.replaceAll(old, new)` of two characters. -/
def replaceChar (old new : Char) (text : List Char) : List Char := text.map (swapChar old new)

/-- `encodeBase64Url(bytes)`. -/
def encodeBase64Url (bytes : List UInt8) : List Char :=
  trimEquals (replaceChar '/' '_' (replaceChar '+' '-' (btoa bytes)))

/-- A character of `/^[A-Za-z0-9_-]+$/u`. -/
def isBase64UrlChar (c : Char) : Bool := c.isAlphanum || c == '_' || c == '-'

/-- `LiveProtocolError`, by its message. -/
abbrev LiveResult (α : Type) : Type := Except String α

/-- `decodeBase64Url(value)`. -/
def decodeBase64Url (value : List Char) : LiveResult (List UInt8) :=
  if value.isEmpty || !value.all isBase64UrlChar then .error "Live signature encoding is invalid"
  else
    let standard := replaceChar '_' '/' (replaceChar '-' '+' value)
    let padded := standard ++ List.replicate ((4 - standard.length % 4) % 4) '='
    match atob padded with
    | none => .error "Live signature encoding is invalid"
    | some bytes => .ok bytes

/-! ## 2. Payloads -/

/-- `LIVE_CAPABILITY_AUDIENCE`. -/
def liveCapabilityAudience : String := "stowplan-live-relay"

/-- `LIVE_CAPABILITY_TTL_MS`. -/
def liveCapabilityTtlMs : Nat := 60000

/-- `LIVE_RELAY_CLOCK_SKEW_MS`. -/
def liveRelayClockSkewMs : Nat := 60000

/-- `LIVE_IDENTIFIER_MAX_CHARACTERS`. -/
def liveIdentifierMaxCharacters : Nat := 128

/-- `LIVE_CONNECTION_ID_MAX_CHARACTERS`. -/
def liveConnectionIdMaxCharacters : Nat := 128

/-- `LIVE_ORIGIN_MAX_CHARACTERS`. -/
def liveOriginMaxCharacters : Nat := 512

/-- `LIVE_TOKEN_MAX_CHARACTERS`. -/
def liveTokenMaxCharacters : Nat := 4096

/-- `LIVE_SECRET_MINIMUM_BYTES`. -/
def liveSecretMinimumBytes : Nat := 32

/-- `CAPABILITY_SIGNATURE_CONTEXT`. -/
def capabilitySignatureContext : List Char := "stowplan-live-capability-v1".toList

/-- `RELAY_SIGNATURE_CONTEXT`. -/
def relaySignatureContext : List Char := "stowplan-live-publish-v1".toList

/-- `LiveCapabilityPayload`; its audience and version are constants. -/
structure LiveCapabilityPayload where
  accessRevision : Nat
  connectionId : String
  expiresAt : Nat
  issuedAt : Nat
  origin : String
  revision : Nat
  userId : String
  workspaceId : String
  deriving DecidableEq

/-- `requiredString(value, label, maximum)`. -/
def requiredString (value : JsValue) (label : String) (maximum : Nat) : LiveResult String :=
  match value with
  | .str s =>
    if s = "" || trim s ≠ s || decide (maximum < utf16Length s) then
      .error s!"Live {label} is invalid"
    else .ok s
  | _ => .error s!"Live {label} is invalid"

/-- A safe integer that is not negative, or the error. -/
def safeCounter (value : JsValue) (message : String) : LiveResult Nat :=
  match value with
  | .num x =>
    match x.toInt? with
    | some n => if JsNumber.safeInt n && decide (0 ≤ n) then .ok n.toNat else .error message
    | none => .error message
  | _ => .error message

/-- `safeRevision(value, label)`. -/
def safeRevision (value : JsValue) (label : String) : LiveResult Nat :=
  safeCounter value s!"Live {label} revision is invalid"

/-- `safeTimestamp(value, label)`. -/
def safeTimestamp (value : JsValue) (label : String) : LiveResult Nat :=
  safeCounter value s!"Live {label} timestamp is invalid"

section Payload

-- `new URL(text)`, as far as its origin and its pathname are asked for
variable (parseUrl : String → Option (String × String))

/-- `normalizedOrigin(value)`. -/
def normalizedOrigin (value : JsValue) : LiveResult String := do
  let origin ← requiredString value "origin" liveOriginMaxCharacters
  match parseUrl origin with
  | none => throw "Live origin is invalid"
  | some (parsedOrigin, pathname) =>
    if parsedOrigin ≠ origin || pathname ≠ "/" then throw "Live origin is invalid"
    else return origin

/-- `parseCapabilityPayload(value)`. -/
def parseCapabilityPayload (value : JsValue) : LiveResult LiveCapabilityPayload :=
  if !value.isRecord then .error "Live capability payload is invalid"
  else if value.get "audience" ≠ .str liveCapabilityAudience then
    .error "Live capability audience is invalid"
  else if value.get "version" ≠ .num 1 then .error "Live capability version is invalid"
  else do
    let issuedAt ← safeTimestamp (value.get "issuedAt") "issued-at"
    let expiresAt ← safeTimestamp (value.get "expiresAt") "expiry"
    if expiresAt ≤ issuedAt || decide (liveCapabilityTtlMs < expiresAt - issuedAt) then
      throw "Live capability lifetime is invalid"
    let accessRevision ← safeRevision (value.get "accessRevision") "access"
    let connectionId ← requiredString (value.get "connectionId") "connection ID"
      liveConnectionIdMaxCharacters
    let origin ← normalizedOrigin parseUrl (value.get "origin")
    let revision ← safeRevision (value.get "revision") "workspace"
    let userId ← requiredString (value.get "userId") "user ID" liveIdentifierMaxCharacters
    let workspaceId ← requiredString (value.get "workspaceId") "workspace ID"
      liveIdentifierMaxCharacters
    return { accessRevision, connectionId, expiresAt, issuedAt, origin, revision, userId, workspaceId }

/-- The object that a payload is, in the order of its literal. -/
def LiveCapabilityPayload.toValue (payload : LiveCapabilityPayload) : JsValue :=
  .obj [
    ("accessRevision", .num (.ofInt payload.accessRevision)),
    ("audience", .str liveCapabilityAudience),
    ("connectionId", .str payload.connectionId),
    ("expiresAt", .num (.ofInt payload.expiresAt)),
    ("issuedAt", .num (.ofInt payload.issuedAt)),
    ("origin", .str payload.origin),
    ("revision", .num (.ofInt payload.revision)),
    ("userId", .str payload.userId),
    ("version", .num 1),
    ("workspaceId", .str payload.workspaceId)]

/-! ## 3. Tokens -/

/-- HMAC with SHA-256: a code of 32 bytes for a key and a text. -/
structure Hmac where
  mac : List UInt8 → List UInt8 → List UInt8
  length : ∀ key text, (mac key text).length = 32

/-- HMAC is taken to be correct on the texts that are signed or presented: no two of them have
    the same code under the key. -/
def Hmac.Separates (hmac : Hmac) (key : List UInt8) (texts : Set (List Char)) : Prop :=
  Set.InjOn (fun text => hmac.mac key (encodeUtf8 text)) texts

variable [DecimalHost] (hmac : Hmac)

/-- `encodedJson(value)`. -/
def encodedJson (value : JsValue) : List Char :=
  encodeBase64Url (encodeUtf8 (JsValue.stringify value).toList)

/-- `decodedJson(value)`. -/
def decodedJson (value : List Char) : LiveResult JsValue := do
  let bytes ← decodeBase64Url value
  match (decodeUtf8 bytes).bind jsonParse with
  | none => throw "Live capability payload is invalid"
  | some value => return value

/-- `hmacKey(secret)`: the bytes of a secret that is long enough. -/
def hmacKey (secret : String) : LiveResult (List UInt8) :=
  let bytes := encodeUtf8 secret.toList
  if bytes.length < liveSecretMinimumBytes then
    .error "Live relay secret must contain at least 32 UTF-8 bytes"
  else .ok bytes

/-- `signText(value, secret)`. -/
def signText (value : List Char) (secret : String) : LiveResult (List Char) := do
  let key ← hmacKey secret
  return encodeBase64Url (hmac.mac key (encodeUtf8 value))

/-- `verifyText(value, signature, secret)`: the signature is that of the text. -/
def verifyText (value signature : List Char) (secret : String) : LiveResult Unit :=
  match decodeBase64Url signature with
  | .error _ => .error "Live signature is invalid"
  | .ok signatureBytes => do
    let key ← hmacKey secret
    if hmac.mac key (encodeUtf8 value) ≠ signatureBytes then throw "Live signature is invalid"

/-- The text that is signed for the first segment of a token. -/
def capabilityText (encoded : List Char) : List Char := capabilitySignatureContext ++ '\n' :: encoded

/-- `signLiveCapability(input, secret)`: whatever the input says of its audience and version is
    replaced. -/
def signLiveCapability (input : JsValue) (secret : String) : LiveResult (List Char) := do
  let payload ← parseCapabilityPayload parseUrl
    ((input.setKey "audience" (.str liveCapabilityAudience)).setKey "version" (.num 1))
  let encoded := encodedJson payload.toValue
  let signature ← signText hmac (capabilityText encoded) secret
  return encoded ++ '.' :: signature

/-- `verifyLiveCapability(token, secret, now, origin)`. -/
def verifyLiveCapability (token : List Char) (secret : String) (now : Int) (origin : String) :
    LiveResult LiveCapabilityPayload :=
  if liveTokenMaxCharacters < units token then .error "Live capability token is invalid"
  else match token.splitOn '.' with
    | [encoded, signature] =>
      if encoded.isEmpty || signature.isEmpty then .error "Live capability token is invalid"
      else do
        verifyText hmac (capabilityText encoded) signature secret
        let value ← decodedJson encoded
        let payload ← parseCapabilityPayload parseUrl value
        if (payload.expiresAt : Int) < now then throw "Live capability has expired"
        if now + liveRelayClockSkewMs < payload.issuedAt then
          throw "Live capability is not active yet"
        let expected ← normalizedOrigin parseUrl (.str origin)
        if payload.origin ≠ expected then throw "Live capability origin does not match"
        return payload
    | _ => .error "Live capability token is invalid"

/-- `relaySignatureValue(body, timestamp)`. -/
def relaySignatureValue (body timestamp : List Char) : List Char :=
  relaySignatureContext ++ '\n' :: timestamp ++ '\n' :: body

end Payload

/-! ## 4. Bytes are read back -/

section Bytes

/-- The sign of six bits in a URL. -/
def base64UrlChar (n : Nat) : Char := swapChar '/' '_' (swapChar '+' '-' (base64Char n))

theorem base64UrlChar_all {P : Char → Nat → Prop} [∀ c n, Decidable (P c n)]
    (h : (List.range 64).all (fun n => decide (P (base64UrlChar n) n)) = true) {n : Nat}
    (hn : n < 64) : P (base64UrlChar n) n :=
  of_decide_eq_true (List.all_eq_true.mp h n (List.mem_range.mpr hn))

theorem trimEquals_append {signs : List Char} (h : ∀ c ∈ signs, c ≠ '=') (k : Nat) :
    trimEquals (signs ++ List.replicate k '=') = signs := by
  have hpad : ∀ rest : List Char, (List.replicate k '=' ++ rest).dropWhile (fun c => c == '=') =
      rest.dropWhile fun c => c == '=' := by
    intro rest
    exact List.dropWhile_append_of_pos fun c hc => by rw [List.eq_of_mem_replicate hc]; rfl
  have hkeep : signs.reverse.dropWhile (fun c => c == '=') = signs.reverse := by
    cases hlast : signs.reverse with
    | nil => rfl
    | cons c rest =>
        have hc : c ≠ '=' := h c (List.mem_reverse.mp (hlast ▸ List.mem_cons_self))
        exact List.dropWhile_cons_of_neg (by rw [beq_iff_eq]; exact hc)
  unfold trimEquals
  rw [List.reverse_append, List.reverse_replicate, hpad, hkeep, List.reverse_reverse]

/-- **The text of bytes is the signs of their bits.** -/
theorem encodeBase64Url_eq (bytes : List UInt8) :
    encodeBase64Url bytes = (sextets bytes).map base64UrlChar := by
  have hplain : ∀ c ∈ (sextets bytes).map base64UrlChar, c ≠ '=' := by
    intro c hc
    obtain ⟨n, hn, rfl⟩ := List.mem_map.mp hc
    exact base64UrlChar_all (P := fun c _ => c ≠ '=') (by decide) (sextets_lt bytes n hn)
  have hpad : swapChar '/' '_' (swapChar '+' '-' '=') = '=' := by decide
  have hsigns : replaceChar '/' '_' (replaceChar '+' '-' (btoa bytes)) =
      (sextets bytes).map base64UrlChar ++ List.replicate ((3 - bytes.length % 3) % 3) '=' := by
    unfold btoa replaceChar
    rw [List.map_append, List.map_append, List.map_replicate, List.map_replicate, List.map_map,
      List.map_map, hpad]
    rfl
  unfold encodeBase64Url
  rw [hsigns, trimEquals_append hplain]

theorem length_encodeBase64Url (bytes : List UInt8) :
    (encodeBase64Url bytes).length = (4 * bytes.length + 2) / 3 := by
  rw [encodeBase64Url_eq, List.length_map, length_sextets]

theorem encodeBase64Url_char (bytes : List UInt8) :
    ∀ c ∈ encodeBase64Url bytes, isBase64UrlChar c = true ∧ c ≠ '.' ∧ c.val < 0x10000 := by
  rw [encodeBase64Url_eq]
  intro c hc
  obtain ⟨n, hn, rfl⟩ := List.mem_map.mp hc
  exact base64UrlChar_all (P := fun c _ => isBase64UrlChar c = true ∧ c ≠ '.' ∧ c.val < 0x10000)
    (by decide) (sextets_lt bytes n hn)

/-- **Bytes are read back from their text**, if there are any. -/
theorem decodeBase64Url_encode {bytes : List UInt8} (h : bytes ≠ []) :
    decodeBase64Url (encodeBase64Url bytes) = .ok bytes := by
  have hback : ∀ n < 64, swapChar '_' '/' (swapChar '-' '+' (base64UrlChar n)) = base64Char n := by
    decide
  have hstandard : replaceChar '_' '/' (replaceChar '-' '+' (encodeBase64Url bytes)) =
      (sextets bytes).map base64Char := by
    rw [encodeBase64Url_eq]
    unfold replaceChar
    rw [List.map_map, List.map_map]
    refine List.map_congr_left fun n hn => ?_
    rw [Function.comp_apply, Function.comp_apply]
    exact hback n (sextets_lt bytes n hn)
  have hfilled : (encodeBase64Url bytes).isEmpty = false := by
    cases hcode : encodeBase64Url bytes with
    | nil =>
        have hlength := length_encodeBase64Url bytes
        have hpos := List.length_pos_iff.mpr h
        rw [hcode, List.length_nil] at hlength
        omega
    | cons c code => rfl
  have hall : (encodeBase64Url bytes).all isBase64UrlChar = true :=
    List.all_eq_true.mpr fun c hc => (encodeBase64Url_char bytes c hc).1
  unfold decodeBase64Url
  rw [hfilled, hall, if_neg (by decide)]
  dsimp only
  rw [hstandard, List.length_map, atob_padded]

end Bytes

/-! ## 5. What a payload is asked -/

section Admitted

variable {parseUrl : String → Option (String × String)}

/-- A text of a payload: not empty, without blanks at its ends, and not too long. -/
structure FitText (s : String) (maximum : Nat) : Prop where
  filled : s ≠ ""
  trimmed : trim s = s
  short : utf16Length s ≤ maximum

/-- **What `parseCapabilityPayload` asks of a payload.** -/
structure Admitted (parseUrl : String → Option (String × String)) (p : LiveCapabilityPayload) :
    Prop where
  issuedAt : p.issuedAt < 2 ^ 53
  expiresAt : p.expiresAt < 2 ^ 53
  lifetime : p.issuedAt < p.expiresAt ∧ p.expiresAt - p.issuedAt ≤ liveCapabilityTtlMs
  accessRevision : p.accessRevision < 2 ^ 53
  connectionId : FitText p.connectionId liveConnectionIdMaxCharacters
  origin : FitText p.origin liveOriginMaxCharacters
  parsed : parseUrl p.origin = some (p.origin, "/")
  revision : p.revision < 2 ^ 53
  userId : FitText p.userId liveIdentifierMaxCharacters
  workspaceId : FitText p.workspaceId liveIdentifierMaxCharacters

theorem requiredString_ok {value : JsValue} {label s : String} {maximum : Nat} :
    requiredString value label maximum = .ok s ↔ value = .str s ∧ FitText s maximum := by
  unfold requiredString
  constructor
  · intro h
    split at h
    · split at h
      · cases h
      · rename_i hfit
        cases h
        rw [Bool.or_eq_true, Bool.or_eq_true, decide_eq_true_eq, decide_eq_true_eq,
          decide_eq_true_eq, not_or, not_or] at hfit
        exact ⟨rfl, hfit.1.1, not_not.mp hfit.1.2, Nat.le_of_not_lt hfit.2⟩
    · cases h
  · rintro ⟨rfl, hfilled, htrimmed, hshort⟩
    dsimp only
    rw [if_neg]
    rw [Bool.or_eq_true, Bool.or_eq_true, decide_eq_true_eq, decide_eq_true_eq, decide_eq_true_eq,
      not_or, not_or]
    exact ⟨⟨hfilled, not_not.mpr htrimmed⟩, Nat.not_lt.mpr hshort⟩

theorem safeCounter_ok {value : JsValue} {message : String} {n : Nat}
    (h : safeCounter value message = .ok n) : n < 2 ^ 53 := by
  unfold safeCounter at h
  split at h
  · split at h
    · split at h
      · rename_i hsafe
        cases h
        rw [Bool.and_eq_true, decide_eq_true_eq] at hsafe
        have hle := (of_decide_eq_true hsafe.1).2
        unfold JsNumber.maxSafeInteger at hle
        omega
      · cases h
    · cases h
  · cases h

theorem safeCounter_nat {n : Nat} (hn : n < 2 ^ 53) (message : String) :
    safeCounter (.num (.ofInt n)) message = .ok n := by
  have hint : (JsNumber.ofInt n).toInt? = some (n : Int) := by
    unfold JsNumber.ofInt JsNumber.toInt?
    dsimp only
    rw [Rat.den_intCast, if_pos rfl, Rat.num_intCast]
  have hsafe : (JsNumber.safeInt (n : Int) && decide (0 ≤ (n : Int))) = true := by
    unfold JsNumber.safeInt JsNumber.maxSafeInteger
    rw [Bool.and_eq_true, decide_eq_true_eq, decide_eq_true_eq]
    omega
  unfold safeCounter
  dsimp only
  rw [hint]
  dsimp only
  rw [hsafe, if_pos rfl, Int.toNat_natCast]

theorem normalizedOrigin_ok {value : JsValue} {origin : String} :
    normalizedOrigin parseUrl value = .ok origin ↔
      value = .str origin ∧ FitText origin liveOriginMaxCharacters ∧
        parseUrl origin = some (origin, "/") := by
  unfold normalizedOrigin
  rw [except_bind_ok]
  constructor
  · rintro ⟨s, hs, h⟩
    obtain ⟨hvalue, hfit⟩ := requiredString_ok.mp hs
    split at h
    · cases h
    · rename_i parsed pathname hparsed
      split at h
      · cases h
      · rename_i hsame
        cases h
        rw [Bool.or_eq_true, decide_eq_true_eq, decide_eq_true_eq, not_or, not_not, not_not] at hsame
        rw [hsame.1, hsame.2] at hparsed
        exact ⟨hvalue, hfit, hparsed⟩
  · rintro ⟨hvalue, hfit, hparsed⟩
    refine ⟨origin, requiredString_ok.mpr ⟨hvalue, hfit⟩, ?_⟩
    rw [hparsed]
    dsimp only
    rw [if_neg (by simp)]
    rfl

theorem parseCapabilityPayload_ok {value : JsValue} {p : LiveCapabilityPayload}
    (h : parseCapabilityPayload parseUrl value = .ok p) : Admitted parseUrl p := by
  unfold parseCapabilityPayload at h
  split at h
  · cases h
  split at h
  · cases h
  split at h
  · cases h
  obtain ⟨issuedAt, hissued, h⟩ := except_bind_ok.mp h
  obtain ⟨expiresAt, hexpires, h⟩ := except_bind_ok.mp h
  split at h
  · cases h
  rename_i hlifetime
  obtain ⟨accessRevision, haccess, h⟩ := except_bind_ok.mp h
  obtain ⟨connectionId, hconnection, h⟩ := except_bind_ok.mp h
  obtain ⟨origin, horigin, h⟩ := except_bind_ok.mp h
  obtain ⟨revision, hrevision, h⟩ := except_bind_ok.mp h
  obtain ⟨userId, huser, h⟩ := except_bind_ok.mp h
  obtain ⟨workspaceId, hworkspace, h⟩ := except_bind_ok.mp h
  obtain rfl := Except.ok.inj h
  rw [Bool.or_eq_true, decide_eq_true_eq, decide_eq_true_eq, not_or] at hlifetime
  obtain ⟨-, hfit, hparsed⟩ := normalizedOrigin_ok.mp horigin
  exact {
    issuedAt := safeCounter_ok hissued
    expiresAt := safeCounter_ok hexpires
    lifetime := ⟨Nat.lt_of_not_le hlifetime.1, Nat.le_of_not_lt hlifetime.2⟩
    accessRevision := safeCounter_ok haccess
    connectionId := (requiredString_ok.mp hconnection).2
    origin := hfit
    parsed := hparsed
    revision := safeCounter_ok hrevision
    userId := (requiredString_ok.mp huser).2
    workspaceId := (requiredString_ok.mp hworkspace).2 }

/-- The fields of a payload's object. -/
structure HasFields (value : JsValue) (p : LiveCapabilityPayload) : Prop where
  record : value.isRecord = true
  accessRevision : value.get "accessRevision" = .num (.ofInt p.accessRevision)
  audience : value.get "audience" = .str liveCapabilityAudience
  connectionId : value.get "connectionId" = .str p.connectionId
  expiresAt : value.get "expiresAt" = .num (.ofInt p.expiresAt)
  issuedAt : value.get "issuedAt" = .num (.ofInt p.issuedAt)
  origin : value.get "origin" = .str p.origin
  revision : value.get "revision" = .num (.ofInt p.revision)
  userId : value.get "userId" = .str p.userId
  version : value.get "version" = .num 1
  workspaceId : value.get "workspaceId" = .str p.workspaceId

theorem hasFields_toValue (p : LiveCapabilityPayload) : HasFields p.toValue p := by
  unfold LiveCapabilityPayload.toValue
  constructor <;> simp [JsValue.isRecord, JsValue.lookup]

/-- The constants that signing puts in place are there. -/
theorem toValue_constants (p : LiveCapabilityPayload) :
    (p.toValue.setKey "audience" (.str liveCapabilityAudience)).setKey "version" (.num 1) =
      p.toValue := by
  unfold LiveCapabilityPayload.toValue
  simp [JsValue.setKey, JsValue.setEntry]

/-- **An object with the fields of an admitted payload is parsed as it.** -/
theorem parseCapabilityPayload_fields {value : JsValue} {p : LiveCapabilityPayload}
    (hp : Admitted parseUrl p) (h : HasFields value p) :
    parseCapabilityPayload parseUrl value = .ok p := by
  have hissued := safeCounter_nat hp.issuedAt "Live issued-at timestamp is invalid"
  have hlifetime : (decide (p.expiresAt ≤ p.issuedAt) ||
      decide (liveCapabilityTtlMs < p.expiresAt - p.issuedAt)) = false := by
    rw [Bool.or_eq_false_iff, decide_eq_false_iff_not, decide_eq_false_iff_not]
    exact ⟨Nat.not_le.mpr hp.lifetime.1, Nat.not_lt.mpr hp.lifetime.2⟩
  unfold parseCapabilityPayload
  rw [h.record, h.audience, h.version, h.issuedAt, h.expiresAt, h.accessRevision, h.connectionId,
    h.origin, h.revision, h.userId, h.workspaceId, if_neg (by decide), if_neg (not_not.mpr rfl),
    if_neg (not_not.mpr rfl)]
  unfold safeTimestamp safeRevision
  rw [safeCounter_nat hp.issuedAt, safeCounter_nat hp.expiresAt, except_bind_ok]
  refine ⟨_, rfl, except_bind_ok.mpr ⟨_, rfl, ?_⟩⟩
  rw [hlifetime, if_neg Bool.false_ne_true, safeCounter_nat hp.accessRevision,
    safeCounter_nat hp.revision, requiredString_ok.mpr ⟨rfl, hp.connectionId⟩,
    requiredString_ok.mpr ⟨rfl, hp.userId⟩, requiredString_ok.mpr ⟨rfl, hp.workspaceId⟩,
    normalizedOrigin_ok.mpr ⟨rfl, hp.origin, hp.parsed⟩]
  rfl

end Admitted

/-! ## 6. Tokens verify -/

section Tokens

variable {parseUrl : String → Option (String × String)} {hmac : Hmac} [DecimalHost]

open JsValue

omit [DecimalHost] in
theorem written_toValue {p : LiveCapabilityPayload} (h : Admitted parseUrl p) :
    written p.toValue = true := by
  have hwhole : ∀ n : Nat, n < 2 ^ 53 → wholeNumber (.ofInt n) = true :=
    fun n hn => wholeNumber_iff.mpr ⟨n, hn, rfl⟩
  have hone : wholeNumber 1 = true := hwhole 1 (by omega)
  have hnodup : (["accessRevision", "audience", "connectionId", "expiresAt", "issuedAt", "origin",
    "revision", "userId", "version", "workspaceId"] : List String).Nodup := by decide
  unfold LiveCapabilityPayload.toValue
  simp only [written, writtenFields, List.map_cons, List.map_nil]
  rw [hwhole _ h.accessRevision, hwhole _ h.expiresAt, hwhole _ h.issuedAt, hwhole _ h.revision,
    hone, decide_eq_true hnodup]
  rfl

/-- **The first segment of a token is read back.** -/
theorem decodedJson_encoded {p : LiveCapabilityPayload} (h : Admitted parseUrl p) :
    decodedJson (encodedJson p.toValue) = .ok p.toValue := by
  have hwritten := written_toValue h
  have hparse := jsonParse_stringify hwritten
  obtain ⟨c, text, htext, hascii⟩ : ∃ c text, (stringify p.toValue).toList = c :: text ∧
      c.toNat < 128 := by
    have hfields := hwritten
    unfold LiveCapabilityPayload.toValue at hfields ⊢
    rw [written, Bool.and_eq_true] at hfields
    exact ⟨'\x7b', _, jsonChars_obj hfields.1, by decide⟩
  have hne : encodeUtf8 (c :: text) ≠ [] := by
    intro hnil
    have hdecode := decodeUtf8_encodeUtf8 hascii text
    rw [hnil] at hdecode
    cases hdecode
  unfold decodedJson encodedJson
  rw [htext] at hparse ⊢
  rw [decodeBase64Url_encode hne, except_bind_ok]
  refine ⟨_, rfl, ?_⟩
  rw [decodeUtf8_encodeUtf8 hascii, Option.bind_some, hparse]
  rfl

omit [DecimalHost] in
/-- The key of a secret that is long enough. -/
theorem hmacKey_ok {secret : String} (h : liveSecretMinimumBytes ≤ (encodeUtf8 secret.toList).length) :
    hmacKey secret = .ok (encodeUtf8 secret.toList) := if_neg (Nat.not_lt.mpr h)

/-- The token of a payload. -/
def tokenOf (hmac : Hmac) (p : LiveCapabilityPayload) (secret : String) : List Char :=
  encodedJson p.toValue ++ '.' :: encodeBase64Url
    (hmac.mac (encodeUtf8 secret.toList) (encodeUtf8 (capabilityText (encodedJson p.toValue))))

theorem signLiveCapability_ok {p : LiveCapabilityPayload} (hp : Admitted parseUrl p) {secret : String}
    (hsecret : liveSecretMinimumBytes ≤ (encodeUtf8 secret.toList).length) :
    signLiveCapability parseUrl hmac p.toValue secret = .ok (tokenOf hmac p secret) := by
  unfold signLiveCapability
  rw [toValue_constants, parseCapabilityPayload_fields hp (hasFields_toValue p), except_bind_ok]
  refine ⟨p, rfl, ?_⟩
  unfold signText
  rw [hmacKey_ok hsecret]
  rfl

omit [DecimalHost] in
theorem verifyText_ok {value : List Char} {secret : String}
    (hsecret : liveSecretMinimumBytes ≤ (encodeUtf8 secret.toList).length) :
    verifyText hmac value
      (encodeBase64Url (hmac.mac (encodeUtf8 secret.toList) (encodeUtf8 value))) secret = .ok () := by
  have hlength := hmac.length (encodeUtf8 secret.toList) (encodeUtf8 value)
  have hne : hmac.mac (encodeUtf8 secret.toList) (encodeUtf8 value) ≠ [] := by
    intro hnil
    rw [hnil] at hlength
    cases hlength
  unfold verifyText
  rw [decodeBase64Url_encode hne]
  dsimp only
  rw [hmacKey_ok hsecret, except_bind_ok]
  exact ⟨_, rfl, if_neg (not_not.mpr rfl)⟩

omit [DecimalHost] in
/-- A signature that verifies is the code of the text, under a key that is long enough. -/
theorem verifyText_code {value signature : List Char} {secret : String} {u : Unit}
    (h : verifyText hmac value signature secret = .ok u) :
    decodeBase64Url signature = .ok (hmac.mac (encodeUtf8 secret.toList) (encodeUtf8 value)) := by
  unfold verifyText at h
  split at h
  · cases h
  · rename_i bytes hbytes
    obtain ⟨key, hkey, h⟩ := except_bind_ok.mp h
    have hsecret : key = encodeUtf8 secret.toList := by
      unfold hmacKey at hkey
      dsimp only at hkey
      split at hkey
      · cases hkey
      · exact (Except.ok.inj hkey).symm
    split at h
    · cases h
    · rename_i hcode
      rw [hbytes, ← not_not.mp hcode, hsecret]

omit [DecimalHost] in
theorem encodeBase64Url_filled {bytes : List UInt8} (h : bytes ≠ []) :
    (encodeBase64Url bytes).isEmpty = false := by
  rw [Bool.eq_false_iff]
  intro hempty
  have hdecode := decodeBase64Url_encode h
  unfold decodeBase64Url at hdecode
  rw [hempty] at hdecode
  cases hdecode

/-- The two segments of a token. -/
theorem splitOn_tokenOf (hmac : Hmac) (p : LiveCapabilityPayload) (secret : String) :
    (tokenOf hmac p secret).splitOn '.' = [encodedJson p.toValue, encodeBase64Url
      (hmac.mac (encodeUtf8 secret.toList)
        (encodeUtf8 (capabilityText (encodedJson p.toValue))))] := by
  have hdot : ∀ bytes, '.' ∉ encodeBase64Url bytes := fun bytes hmem =>
    (encodeBase64Url_char bytes _ hmem).2.1 rfl
  have hfirst : '.' ∉ encodedJson p.toValue := hdot _
  unfold tokenOf
  rw [List.splitOn_append_cons_self_of_not_mem hfirst, List.splitOn_eq_singleton (hdot _)]

/-- **The token of an admitted payload verifies within its time, where it is not too long.** -/
theorem verify_signed {p : LiveCapabilityPayload} (hp : Admitted parseUrl p) {secret : String}
    (hsecret : liveSecretMinimumBytes ≤ (encodeUtf8 secret.toList).length) {now : Int}
    (hstart : (p.issuedAt : Int) ≤ now) (hend : now ≤ p.expiresAt) :
    verifyLiveCapability parseUrl hmac (tokenOf hmac p secret) secret now p.origin = .ok p ↔
      units (tokenOf hmac p secret) ≤ liveTokenMaxCharacters := by
  have hsplit := splitOn_tokenOf hmac p secret
  have hdecoded := decodedJson_encoded hp
  have hfirst : (encodedJson p.toValue).isEmpty = false := by
    rw [Bool.eq_false_iff]
    intro hempty
    rw [List.isEmpty_iff.mp hempty] at hdecoded
    cases hdecoded
  have hsecond : (encodeBase64Url (hmac.mac (encodeUtf8 secret.toList)
      (encodeUtf8 (capabilityText (encodedJson p.toValue))))).isEmpty = false := by
    refine encodeBase64Url_filled fun hnil => ?_
    have hlength := hmac.length (encodeUtf8 secret.toList)
      (encodeUtf8 (capabilityText (encodedJson p.toValue)))
    rw [hnil] at hlength
    cases hlength
  have hskew : ¬ now + liveRelayClockSkewMs < (p.issuedAt : Int) := by
    unfold liveRelayClockSkewMs
    omega
  unfold verifyLiveCapability
  rw [hsplit]
  constructor
  · intro h
    split at h
    · cases h
    · rename_i hlong
      exact Nat.le_of_not_lt hlong
  · intro hlength
    rw [if_neg (Nat.not_lt.mpr hlength)]
    dsimp only
    rw [hfirst, hsecond, if_neg (by decide), verifyText_ok hsecret, hdecoded, except_bind_ok]
    refine ⟨(), rfl, except_bind_ok.mpr ⟨_, rfl, ?_⟩⟩
    rw [parseCapabilityPayload_fields hp (hasFields_toValue p), except_bind_ok]
    refine ⟨_, rfl, ?_⟩
    rw [if_neg (Int.not_lt.mpr hend), if_neg hskew,
      normalizedOrigin_ok.mpr ⟨rfl, hp.origin, hp.parsed⟩, except_bind_ok]
    exact ⟨_, rfl, if_neg (not_not.mpr rfl)⟩

/-- What the server signs with its secret: a capability, or a request to the relay. -/
inductive Signed where
  | capability (payload : LiveCapabilityPayload)
  | relay (body timestamp : List Char)

/-- The text that is signed. -/
def Signed.text : Signed → List Char
  | .capability payload => capabilityText (encodedJson payload.toValue)
  | .relay body timestamp => relaySignatureValue body timestamp

/-- The payload of a capability that is signed is admitted: signing parses it. -/
def Signed.Valid (parseUrl : String → Option (String × String)) : Signed → Prop
  | .capability payload => Admitted parseUrl payload
  | .relay _ _ => True

omit [DecimalHost] in
/-- A token that verifies has the code of its first segment. -/
theorem verify_code {token encoded signature : List Char} {secret origin : String} {now : Int}
    {p : LiveCapabilityPayload} (h : verifyLiveCapability parseUrl hmac token secret now origin = .ok p)
    (htoken : token.splitOn '.' = [encoded, signature]) :
    decodeBase64Url signature =
      .ok (hmac.mac (encodeUtf8 secret.toList) (encodeUtf8 (capabilityText encoded))) := by
  unfold verifyLiveCapability at h
  rw [htoken] at h
  split at h
  · cases h
  dsimp only at h
  split at h
  · cases h
  obtain ⟨_, hverified, -⟩ := except_bind_ok.mp h
  exact verifyText_code hverified

/-- A token verifies to what its first segment was written for, and to nothing else. -/
theorem verify_written {token encoded signature : List Char} {secret origin : String} {now : Int}
    {p : LiveCapabilityPayload} (h : verifyLiveCapability parseUrl hmac token secret now origin = .ok p)
    (htoken : token.splitOn '.' = [encoded, signature]) {signed : Signed}
    (hvalid : signed.Valid parseUrl) (htext : capabilityText encoded = signed.text) :
    signed = .capability p := by
  cases signed with
  | relay body timestamp =>
      -- the two contexts differ
      have hprefix := congrArg (List.take 16) htext
      unfold Signed.text relaySignatureValue capabilityText at hprefix
      dsimp only at hprefix
      rw [List.append_assoc, List.take_append_of_le_length (by decide),
        List.take_append_of_le_length (by decide)] at hprefix
      exact absurd hprefix (by decide)
  | capability payload =>
      have hencoded : encoded = encodedJson payload.toValue :=
        (List.cons.inj (List.append_cancel_left htext)).2
      unfold verifyLiveCapability at h
      rw [htoken, hencoded] at h
      split at h
      · cases h
      dsimp only at h
      split at h
      · cases h
      obtain ⟨_, -, h⟩ := except_bind_ok.mp h
      obtain ⟨value, hvalue, h⟩ := except_bind_ok.mp h
      rw [decodedJson_encoded hvalid] at hvalue
      obtain rfl := Except.ok.inj hvalue
      obtain ⟨q, hq, h⟩ := except_bind_ok.mp h
      rw [parseCapabilityPayload_fields hvalid (hasFields_toValue payload)] at hq
      obtain rfl := Except.ok.inj hq
      split at h
      · cases h
      split at h
      · cases h
      obtain ⟨_, -, h⟩ := except_bind_ok.mp h
      split at h
      · cases h
      · rw [Except.ok.inj h]

/-- **A token with a signature that the server made verifies to what was signed**, and to nothing
    else: its first segment is the text that was signed. -/
theorem verify_only {token encoded signature : List Char} {secret origin : String} {now : Int}
    {p : LiveCapabilityPayload} {texts : Set (List Char)}
    (hmacs : hmac.Separates (encodeUtf8 secret.toList) texts)
    (h : verifyLiveCapability parseUrl hmac token secret now origin = .ok p)
    (htoken : token.splitOn '.' = [encoded, signature]) (hpresented : capabilityText encoded ∈ texts)
    {signed : Signed} (hvalid : signed.Valid parseUrl) (hsigned : signed.text ∈ texts)
    (hcode : decodeBase64Url signature =
      .ok (hmac.mac (encodeUtf8 secret.toList) (encodeUtf8 signed.text))) :
    signed = .capability p := by
  have hverified := verify_code h htoken
  rw [hcode, Except.ok.injEq] at hverified
  exact verify_written h htoken hvalid (hmacs hpresented hsigned hverified.symm)

end Tokens

/-! ## 7. What verifies -/

section Verifies

variable [DecimalHost]

/-- **Every capability the server signs verifies within its time to what was signed, where its token
    has 4096 characters at most**; bytes are read back from their text, if there are any; and a
    token whose signature is one of the server's verifies to the payload that it signed there, as
    far as HMAC keeps the texts apart. -/
theorem live_capability_verifies (parseUrl : String → Option (String × String)) (hmac : Hmac) :
    (∀ value p secret, parseCapabilityPayload parseUrl value = .ok p →
      liveSecretMinimumBytes ≤ (encodeUtf8 secret.toList).length →
      ∃ token, signLiveCapability parseUrl hmac p.toValue secret = .ok token ∧
        ∀ now : Int, p.issuedAt ≤ now → now ≤ p.expiresAt →
          (verifyLiveCapability parseUrl hmac token secret now p.origin = .ok p ↔
            units token ≤ liveTokenMaxCharacters)) ∧
    (∀ bytes, decodeBase64Url (encodeBase64Url bytes) = .ok bytes ↔ bytes ≠ []) ∧
    ∀ secret texts, hmac.Separates (encodeUtf8 secret.toList) texts →
      ∀ token encoded signature now origin p,
        verifyLiveCapability parseUrl hmac token secret now origin = .ok p →
        token.splitOn '.' = [encoded, signature] → capabilityText encoded ∈ texts →
        ∀ signed : Signed, signed.Valid parseUrl → signed.text ∈ texts →
          decodeBase64Url signature =
            .ok (hmac.mac (encodeUtf8 secret.toList) (encodeUtf8 signed.text)) →
          signed = .capability p := by
  refine ⟨fun value p secret hparse hsecret => ?_, fun bytes => ⟨?_, decodeBase64Url_encode⟩, ?_⟩
  · have hp := parseCapabilityPayload_ok hparse
    exact ⟨_, signLiveCapability_ok hp hsecret, fun now => verify_signed hp hsecret⟩
  · rintro h rfl
    cases h
  · intro secret texts hmacs token encoded signature now origin p h htoken hpresented signed hvalid
      hsigned hcode
    exact verify_only hmacs h htoken hpresented hvalid hsigned hcode

end Verifies

/-- The host of ASCII writes whole numbers in decimal. -/
@[reducible] def asciiDecimalHost : DecimalHost where
  toHost := asciiHost
  numberText_whole n _ := by
    have hint : (JsNumber.ofInt n).toInt? = some (n : Int) := by
      unfold JsNumber.ofInt JsNumber.toInt?
      dsimp only
      rw [Rat.den_intCast, if_pos rfl, Rat.num_intCast]
    show (match (JsNumber.ofInt n).toInt? with
      | some i => toString i
      | none => "NaN") = _
    rw [hint]
    rfl

/-- A parser for origins of small letters and dots. -/
def plainOrigin (text : String) : Option (String × String) :=
  if text.toList.take 8 = "https://".toList && !(text.toList.drop 8).isEmpty &&
      (text.toList.drop 8).all fun c => c.isLower || c == '.' then some (text, "/") else none

/-- A code of the first bytes. -/
def shortHmac : Hmac where
  mac key text := ((text ++ key).take 32) ++ List.replicate (32 - (text ++ key).length) 0
  length key text := by
    rw [List.length_append, List.length_take, List.length_replicate]
    omega

/-- A text of one character, again and again. -/
def repeated (n : Nat) (c : Char) : String := String.ofList (List.replicate n c)

/-- An origin of 512 characters. -/
def longestOrigin : List Char := "https://".toList ++ List.replicate 504 'a'

/-- The longest payload: its identifiers are control characters, each written with six, and its
    numbers have sixteen digits. -/
def longestPayload : LiveCapabilityPayload where
  accessRevision := 9007199254740991
  connectionId := repeated 128 (Char.ofNat 1)
  expiresAt := 9007199254740991
  issuedAt := 9007199254680991
  origin := String.ofList longestOrigin
  revision := 9007199254740991
  userId := repeated 128 (Char.ofNat 1)
  workspaceId := repeated 128 (Char.ofNat 1)

section Longest

open JsValue

theorem length_encodeUtf8 (text : List Char) : (encodeUtf8 text).length = String.utf8Len text := by
  unfold encodeUtf8
  induction text with
  | nil => rfl
  | cons c text ih =>
      rw [List.flatMap_cons, List.length_append, ih, String.length_utf8EncodeChar]
      exact Nat.add_comm _ _

theorem units_eq_length {text : List Char} (h : ∀ c ∈ text, c.val < 0x10000) :
    units text = text.length := by
  induction text with
  | nil => rfl
  | cons c text ih =>
      rw [units_cons, if_pos (h c List.mem_cons_self),
        ih fun d hd => h d (List.mem_cons_of_mem _ hd), List.length_cons, Nat.add_comm]

/-- How long a token is: four signs for three bytes, a dot and the forty-three signs of the code. -/
theorem units_tokenOf [DecimalHost] (hmac : Hmac) (p : LiveCapabilityPayload) (secret : String) :
    units (tokenOf hmac p secret) = (4 * jsonBytes p.toValue + 2) / 3 + 44 := by
  have hplain : ∀ c ∈ tokenOf hmac p secret, c.val < 0x10000 := by
    intro c hc
    rcases List.mem_append.mp hc with hc | hc
    · exact (encodeBase64Url_char _ c hc).2.2
    · rcases List.mem_cons.mp hc with rfl | hc
      · decide
      · exact (encodeBase64Url_char _ c hc).2.2
  have hbytes : (encodeUtf8 (stringify p.toValue).toList).length = jsonBytes p.toValue := by
    rw [length_encodeUtf8]
    unfold jsonBytes
    rw [← String.utf8ByteSize_ofList, String.ofList_toList]
  rw [units_eq_length hplain]
  unfold tokenOf encodedJson
  rw [List.length_append, List.length_cons, length_encodeBase64Url, length_encodeBase64Url, hbytes,
    hmac.length]

theorem tokenOf_length (host : DecimalHost) (hmac : Hmac) (p : LiveCapabilityPayload) (secret : String)
    {n : Nat} (h : @jsonBytes host.toHost p.toValue = n) :
    units (@tokenOf host hmac p secret) = (4 * n + 2) / 3 + 44 := by
  rw [@units_tokenOf host, h]

theorem jsonBytes_whole {n : Nat} (hn : n < 2 ^ 53) :
    @jsonBytes asciiHost (.num (.ofInt n)) = (Nat.toDigits 10 n).length := by
  have hchars := @jsonChars_num asciiDecimalHost n hn
  have hascii : ∀ digits : List Char, (∀ c ∈ digits, c.isDigit = true) →
      String.utf8Len digits = digits.length := by
    intro digits hdigits
    induction digits with
    | nil => rfl
    | cons c digits ih =>
        have hone : c.utf8Size = 1 := by
          have hdigit := hdigits c List.mem_cons_self
          unfold Char.isDigit at hdigit
          rw [Bool.and_eq_true, decide_eq_true_eq, decide_eq_true_eq] at hdigit
          unfold Char.utf8Size
          rw [if_pos]
          exact UInt32.le_trans hdigit.2 (by decide)
        rw [List.length_cons, ← ih fun d hd => hdigits d (List.mem_cons_of_mem _ hd), ← hone]
        rfl
  unfold jsonBytes
  rw [← String.ofList_toList (s := @stringify asciiHost (.num (.ofInt n))),
    String.utf8ByteSize_ofList]
  refine (congrArg String.utf8Len hchars).trans (hascii _ fun c hc => ?_)
  exact Nat.isDigit_of_mem_toDigits (b := 10) (n := n) (by omega) (by omega) hc

theorem quoteBytes_ofList (text : List Char) :
    quoteBytes (String.ofList text) = (text.map escapedBytes).sum := by
  unfold quoteBytes
  rw [String.toList_ofList]

/-- How many bytes a payload has, written as JSON. -/
theorem jsonBytes_toValue (p : LiveCapabilityPayload) :
    @jsonBytes asciiHost p.toValue =
      @jsonBytes asciiHost (.num (.ofInt p.accessRevision)) + quoteBytes p.connectionId +
      @jsonBytes asciiHost (.num (.ofInt p.expiresAt)) +
      @jsonBytes asciiHost (.num (.ofInt p.issuedAt)) + quoteBytes p.origin +
      @jsonBytes asciiHost (.num (.ofInt p.revision)) + quoteBytes p.userId +
      @jsonBytes asciiHost (.num (.ofInt (1 : Nat))) + quoteBytes p.workspaceId + 159 := by
  have hkeys : quoteBytes "accessRevision" = 14 ∧ quoteBytes "audience" = 8 ∧
      quoteBytes "connectionId" = 12 ∧ quoteBytes "expiresAt" = 9 ∧ quoteBytes "issuedAt" = 8 ∧
      quoteBytes "origin" = 6 ∧ quoteBytes "revision" = 8 ∧ quoteBytes "userId" = 6 ∧
      quoteBytes "version" = 7 ∧ quoteBytes "workspaceId" = 11 ∧
      quoteBytes liveCapabilityAudience = 19 := by
    decide +kernel
  obtain ⟨h1, h2, h3, h4, h5, h6, h7, h8, h9, h10, h11⟩ := hkeys
  have hone : (num 1 : JsValue) = .num (.ofInt (1 : Nat)) := rfl
  unfold LiveCapabilityPayload.toValue
  rw [@jsonBytes_obj asciiHost, hone]
  simp only [fieldBytes, @jsonBytes_str asciiHost, h1, h2, h3, h4, h5, h6, h7, h8, h9, h10, h11]
  omega

theorem longestPayload_bytes : @jsonBytes asciiHost longestPayload.toValue = 3040 := by
  have hmax : ∀ n : Nat, n = 9007199254740991 → @jsonBytes asciiHost (.num (.ofInt n)) = 16 := by
    intro n hn
    rw [jsonBytes_whole (by omega), hn]
    decide +kernel
  have hissued : ∀ n : Nat, n = 9007199254680991 →
      @jsonBytes asciiHost (.num (.ofInt n)) = 16 := by
    intro n hn
    rw [jsonBytes_whole (by omega), hn]
    decide +kernel
  have hone : @jsonBytes asciiHost (.num (.ofInt (1 : Nat))) = 1 :=
    (@jsonBytes_whole 1 (by norm_num)).trans (by decide +kernel)
  have hcontrol : quoteBytes (repeated 128 (Char.ofNat 1)) = 768 :=
    (quoteBytes_ofList _).trans (by decide +kernel)
  have horigin : quoteBytes (String.ofList longestOrigin) = 512 :=
    (quoteBytes_ofList _).trans (by decide +kernel)
  have hconnection : quoteBytes longestPayload.connectionId = 768 := hcontrol
  have huser : quoteBytes longestPayload.userId = 768 := hcontrol
  have hworkspace : quoteBytes longestPayload.workspaceId = 768 := hcontrol
  have hlongest : quoteBytes longestPayload.origin = 512 := horigin
  rw [jsonBytes_toValue, hmax longestPayload.accessRevision rfl,
    hmax longestPayload.expiresAt rfl, hissued longestPayload.issuedAt rfl,
    hmax longestPayload.revision rfl, hone, hconnection, huser, hworkspace, hlongest]

theorem fitText_ofList {text : List Char} {maximum : Nat} (hne : text ≠ [])
    (hplain : text.all (fun c => !isSpace c) = true) (hlength : units text ≤ maximum) :
    FitText (String.ofList text) maximum where
  filled := fun hempty => hne (by rw [← String.toList_ofList (l := text), hempty]; rfl)
  trimmed := by
    have hkeep : ∀ l : List Char, l.all (fun c => !isSpace c) = true → l.dropWhile isSpace = l := by
      intro l hl
      refine dropWhile_of_head fun c hc => ?_
      have hc := List.all_eq_true.mp hl c (List.mem_of_mem_head? hc)
      rwa [Bool.not_eq_true'] at hc
    unfold trim
    rw [String.toList_ofList, hkeep text hplain, hkeep text.reverse, List.reverse_reverse]
    rw [List.all_reverse]
    exact hplain
  short := by
    show units (String.ofList text).toList ≤ maximum
    rw [String.toList_ofList]
    exact hlength

theorem longestPayload_admitted : Admitted plainOrigin longestPayload := by
  have hidentifier : FitText (repeated 128 (Char.ofNat 1)) 128 :=
    fitText_ofList (by decide) (by decide +kernel) (by decide +kernel)
  refine ⟨by decide +kernel, by decide +kernel, by decide +kernel, by decide +kernel, hidentifier,
    fitText_ofList (by decide) (by decide +kernel) (by decide +kernel), ?_, by decide +kernel,
    hidentifier, hidentifier⟩
  show plainOrigin (String.ofList longestOrigin) = some (String.ofList longestOrigin, "/")
  unfold plainOrigin
  rw [String.toList_ofList, if_pos (by decide +kernel)]

/-- **The longest capability is signed and does not verify**: its token has 4098 characters. And no
    bytes at all are not read back. -/
theorem live_capability_lost :
    (∃ token, @signLiveCapability plainOrigin asciiDecimalHost shortHmac longestPayload.toValue
        (repeated 32 'k') = .ok token ∧
      verifyLiveCapability plainOrigin shortHmac token (repeated 32 'k') longestPayload.issuedAt
        longestPayload.origin = .error "Live capability token is invalid") ∧
    encodeBase64Url [] = [] ∧
      decodeBase64Url [] = .error "Live signature encoding is invalid" := by
  have hsecret : liveSecretMinimumBytes ≤ (encodeUtf8 (repeated 32 'k').toList).length := by
    decide +kernel
  have hlong : liveTokenMaxCharacters <
      units (@tokenOf asciiDecimalHost shortHmac longestPayload (repeated 32 'k')) := by
    rw [tokenOf_length asciiDecimalHost shortHmac longestPayload _ longestPayload_bytes]
    decide
  refine ⟨⟨_, @signLiveCapability_ok _ _ asciiDecimalHost _ longestPayload_admitted _ hsecret, ?_⟩,
    rfl, rfl⟩
  unfold verifyLiveCapability
  rw [if_pos hlong]

/-- A payload of an hour past the epoch, for a minute. -/
def shortPayload : LiveCapabilityPayload where
  accessRevision := 3
  connectionId := repeated 8 'c'
  expiresAt := 3660000
  issuedAt := 3600000
  origin := String.ofList ("https://".toList ++ List.replicate 4 'a')
  revision := 7
  userId := repeated 8 'u'
  workspaceId := repeated 8 'w'

theorem shortPayload_admitted : Admitted plainOrigin shortPayload := by
  have hidentifier : ∀ c, isSpace c = false → ∀ maximum, 16 ≤ maximum → c.val < 0x10000 →
      FitText (repeated 8 c) maximum := by
    intro c hspace maximum hmaximum hplain
    refine fitText_ofList (by simp) ?_ ?_
    · rw [List.all_eq_true]
      intro d hd
      rw [List.eq_of_mem_replicate hd, hspace]
      rfl
    · rw [units_eq_length fun d hd => by rwa [List.eq_of_mem_replicate hd], List.length_replicate]
      omega
  refine ⟨by decide, by decide, by decide, by decide,
    hidentifier 'c' (by decide) _ (by decide) (by decide),
    fitText_ofList (by decide) (by decide +kernel) (by decide +kernel), ?_, by decide,
    hidentifier 'u' (by decide) _ (by decide) (by decide),
    hidentifier 'w' (by decide) _ (by decide) (by decide)⟩
  show plainOrigin (String.ofList ("https://".toList ++ List.replicate 4 'a')) =
    some (String.ofList ("https://".toList ++ List.replicate 4 'a'), "/")
  unfold plainOrigin
  rw [String.toList_ofList, if_pos (by decide +kernel)]

theorem shortPayload_bytes : @jsonBytes asciiHost shortPayload.toValue = 212 := by
  have hnumber : ∀ n k : Nat, n < 2 ^ 53 → (Nat.toDigits 10 n).length = k →
      @jsonBytes asciiHost (.num (.ofInt n)) = k :=
    fun n k hn hk => (jsonBytes_whole hn).trans hk
  have hconnection : quoteBytes shortPayload.connectionId = 8 :=
    (quoteBytes_ofList _).trans (by decide +kernel)
  have huser : quoteBytes shortPayload.userId = 8 :=
    (quoteBytes_ofList _).trans (by decide +kernel)
  have hworkspace : quoteBytes shortPayload.workspaceId = 8 :=
    (quoteBytes_ofList _).trans (by decide +kernel)
  have horigin : quoteBytes shortPayload.origin = 12 :=
    (quoteBytes_ofList _).trans (by decide +kernel)
  rw [jsonBytes_toValue, hconnection, huser, hworkspace, horigin,
    hnumber shortPayload.accessRevision 1 (by decide) (by decide +kernel),
    hnumber shortPayload.expiresAt 7 (by decide) (by decide +kernel),
    hnumber shortPayload.issuedAt 7 (by decide) (by decide +kernel),
    hnumber shortPayload.revision 1 (by decide) (by decide +kernel),
    hnumber 1 1 (by decide) (by decide +kernel)]

/-- Its codes begin as the texts do. -/
theorem shortHmac_head {context : List Char} (rest : List Char) (key : List UInt8)
    (h : 16 ≤ (encodeUtf8 context).length) :
    (shortHmac.mac key (encodeUtf8 (context ++ rest))).take 16 = (encodeUtf8 context).take 16 := by
  show (((encodeUtf8 (context ++ rest) ++ key).take 32) ++ _).take 16 = _
  have happend : encodeUtf8 (context ++ rest) = encodeUtf8 context ++ encodeUtf8 rest :=
    List.flatMap_append
  have hlength : 16 ≤ ((encodeUtf8 (context ++ rest) ++ key).take 32).length := by
    rw [happend, List.length_take, List.length_append, List.length_append]
    omega
  rw [List.take_append_of_le_length hlength, List.take_take, happend, List.append_assoc,
    List.take_append_of_le_length (by omega)]
  rfl

/-- The code keeps a capability and a request to the relay apart. -/
theorem shortHmac_separates (key : List UInt8) (encoded body timestamp : List Char) :
    shortHmac.Separates key {capabilityText encoded, relaySignatureValue body timestamp} := by
  have hcapability : (shortHmac.mac key (encodeUtf8 (capabilityText encoded))).take 16 =
      (encodeUtf8 capabilitySignatureContext).take 16 :=
    shortHmac_head ('\n' :: encoded) key (by decide)
  have hrelay : (shortHmac.mac key (encodeUtf8 (relaySignatureContext ++
      ('\n' :: (timestamp ++ '\n' :: body))))).take 16 = (encodeUtf8 relaySignatureContext).take 16 :=
    shortHmac_head ('\n' :: (timestamp ++ '\n' :: body)) key (by decide)
  have hvalue : relaySignatureValue body timestamp =
      relaySignatureContext ++ ('\n' :: (timestamp ++ '\n' :: body)) := by
    unfold relaySignatureValue
    rw [List.append_assoc]
    rfl
  rw [← hvalue] at hrelay
  have hne : shortHmac.mac key (encodeUtf8 (capabilityText encoded)) ≠
      shortHmac.mac key (encodeUtf8 (relaySignatureValue body timestamp)) := by
    intro heq
    have hhead : (encodeUtf8 capabilitySignatureContext).take 16 =
        (encodeUtf8 relaySignatureContext).take 16 :=
      hcapability.symm.trans ((congrArg (List.take 16) heq).trans hrelay)
    exact absurd hhead (by decide)
  rintro a (rfl | rfl) b (rfl | rfl) heq
  · rfl
  · exact absurd heq hne
  · exact absurd heq.symm hne
  · rfl

/-- The short capability is signed and verifies, and what has its signature is that capability. -/
theorem live_capability_verifies_short :
    ∃ token encoded signature,
      @signLiveCapability plainOrigin asciiDecimalHost shortHmac shortPayload.toValue
        (repeated 32 'k') = .ok token ∧
      token.splitOn '.' = [encoded, signature] ∧
      verifyLiveCapability plainOrigin shortHmac token (repeated 32 'k') 3660000
        shortPayload.origin = .ok shortPayload ∧
      ∀ signed : Signed, signed.Valid plainOrigin →
        @Signed.text asciiDecimalHost signed ∈
          ({capabilityText encoded, relaySignatureValue [] []} : Set (List Char)) →
        decodeBase64Url signature = .ok (shortHmac.mac (encodeUtf8 (repeated 32 'k').toList)
          (encodeUtf8 (@Signed.text asciiDecimalHost signed))) →
        signed = .capability shortPayload := by
  let : DecimalHost := asciiDecimalHost
  have hsecret : liveSecretMinimumBytes ≤ (encodeUtf8 (repeated 32 'k').toList).length := by
    decide +kernel
  have hfits : units (tokenOf shortHmac shortPayload (repeated 32 'k')) ≤
      liveTokenMaxCharacters := by
    rw [tokenOf_length asciiDecimalHost shortHmac shortPayload _ shortPayload_bytes]
    decide
  have hsplit := splitOn_tokenOf shortHmac shortPayload (repeated 32 'k')
  have hsigned : signLiveCapability plainOrigin shortHmac shortPayload.toValue (repeated 32 'k') =
      .ok (tokenOf shortHmac shortPayload (repeated 32 'k')) :=
    signLiveCapability_ok shortPayload_admitted hsecret
  obtain ⟨htokens, -, honly⟩ := live_capability_verifies plainOrigin shortHmac
  obtain ⟨token, hsign, hverify⟩ := htokens shortPayload.toValue shortPayload (repeated 32 'k')
    (parseCapabilityPayload_fields shortPayload_admitted (hasFields_toValue shortPayload)) hsecret
  have htoken : token = tokenOf shortHmac shortPayload (repeated 32 'k') :=
    Except.ok.inj (hsign.symm.trans hsigned)
  rw [htoken] at hverify
  have hverified := (hverify 3660000 (by decide) (by decide)).mpr hfits
  refine ⟨tokenOf shortHmac shortPayload (repeated 32 'k'), encodedJson shortPayload.toValue,
    encodeBase64Url (shortHmac.mac (encodeUtf8 (repeated 32 'k').toList)
      (encodeUtf8 (capabilityText (encodedJson shortPayload.toValue)))), hsigned, hsplit, hverified,
    fun signed hvalid htext hcode => ?_⟩
  exact honly (repeated 32 'k')
    {capabilityText (encodedJson shortPayload.toValue), relaySignatureValue [] []}
    (shortHmac_separates _ _ [] []) (tokenOf shortHmac shortPayload (repeated 32 'k'))
    (encodedJson shortPayload.toValue) _ 3660000 shortPayload.origin shortPayload hverified hsplit
    (.inl rfl) signed hvalid htext hcode

end Longest

end Stowplan
