import MegooPM.Lib.JsonReading
import MegooPM.Api.Schemas

/-!
# Saved DNS credentials

`create_credential` and `update_credential`: the public options stand in the row as they are,
the secret ones as an encrypted JSON object. An update decrypts what is stored, puts the new
secrets over it and encrypts the result under the key of the instance it runs on.
-/
namespace MegooPM

open Lib

structure DnsProviderField where
  name : String
  secret : Bool

structure DnsProviderInfo where
  id : String
  fields : List DnsProviderField

def DnsProviderInfo.field (info : DnsProviderInfo) (name : String) : Option DnsProviderField :=
  info.fields.find? fun f => f.name = name

def DnsProviderInfo.isSecret (info : DnsProviderInfo) (name : String) : Bool :=
  (info.field name).any (·.secret)

/-- `encrypt_secret` and `decrypt_secret` under each key an instance may derive: a token opens
under its own key and under no other. Every token has a random part. -/
structure Fernet (κ : Type) where
  encryptSecret : κ → String → Nat → String
  /-- `none` for a `SecretDecryptError` -/
  decryptSecret : κ → String → Option String
  decrypt_own : ∀ key text salt, decryptSecret key (encryptSecret key text salt) = some text
  decrypt_other : ∀ key other text salt, other ≠ key →
    decryptSecret other (encryptSecret key text salt) = none

inductive CredentialError where
  | unknownDnsProvider (provider : String)
  | unknownField (key provider : String)
  | noSecret
  | duplicateName (name : String)
  /-- what was decrypted is no JSON object of texts -/
  | notTexts
  deriving DecidableEq

/-- A row of `dns_provider_credentials`. -/
structure DnsCredential where
  name : String
  provider : String
  options : Items String String
  secretsEnc : String

/-- The option map of a call: a `dict`, so no field comes twice. -/
abbrev OptionMap := { items : Items String String // Distinct items }

/-! ### Options -/

/-- `list_providers` is the catalog of the instance. -/
def getProvider (catalog : List DnsProviderInfo) (id : String) :
    Except CredentialError DnsProviderInfo :=
  orRaise (catalog.find? fun info => info.id = id) (.unknownDnsProvider id)

/-- The trimmed value, unless it is blank. -/
def nonBlank (raw : String) : Option String :=
  if stripped raw = "" then none else some (stripped raw)

/-- One round of the loop of `split_options`. -/
def splitOption (info : DnsProviderInfo) (provider : String)
    (parts : Items String String × Items String String) (option : String × String) :
    Except CredentialError (Items String String × Items String String) :=
  match info.field option.1 with
  | none => .error (.unknownField option.1 provider)
  | some field =>
    match nonBlank option.2 with
    | none => .ok parts
    | some value =>
      if field.secret then .ok (parts.1, setItem parts.2 option.1 value)
      else .ok (setItem parts.1 option.1 value, parts.2)

/-- The public and the secret options. -/
def splitOptions (catalog : List DnsProviderInfo) (provider : String) (options : OptionMap) :
    Except CredentialError (Items String String × Items String String) := do
  let info ← getProvider catalog provider
  options.val.foldlM (splitOption info provider) ([], [])

/-! ### Stored secrets -/

/-- The text with these code points, unless one of them is no character. -/
def textOf (points : CodePoints) : Option String :=
  (points.mapM fun n : Nat => if n.isValidChar then some (Char.ofNat n) else none).map String.ofList

def textMember (member : CodePoints × Json) : Option (String × String) :=
  match member.2 with
  | .text s => do return (← textOf member.1, ← textOf s)
  | _ => none

/-- A dictionary of texts. -/
def textItems : Json → Option (Items String String)
  | .object members => members.mapM textMember
  | _ => none

/-- `json.loads` of what was decrypted. An object of texts has no nesting to run out of room. -/
def loadTexts (text : String) : Except CredentialError (Items String String) :=
  orRaise ((readJson text.toList).bind textItems) .notTexts

def dumpTexts (items : Items String String) : String :=
  String.ofList (objectText .default items)

section

variable {κ : Type} (fernet : Fernet κ) (catalog : List DnsProviderInfo)

/-- `_secrets_of`: what cannot be decrypted counts as no secrets. -/
def secretsOf (key : κ) (credential : DnsCredential) :
    Except CredentialError (Items String String) :=
  match fernet.decryptSecret key credential.secretsEnc with
  | none => .ok []
  | some text => loadTexts text

/-- `create_credential`; `taken` answers `get_by_name`. -/
def createCredential (key : κ) (salt : Nat) (taken : String → Bool) (name provider : String)
    (options : OptionMap) : Except CredentialError DnsCredential := do
  let parts ← splitOptions catalog provider options
  if parts.2 = [] then throw .noSecret
  if taken name then throw (.duplicateName name)
  return {
    name
    provider
    options := parts.1
    secretsEnc := fernet.encryptSecret key (dumpTexts parts.2) salt }

/-- One call of `update_credential`, on an instance with this key. -/
structure CredentialUpdate (κ : Type) where
  key : κ
  salt : Nat
  taken : String → Bool
  name : Option String
  options : Option OptionMap
  /-- whether the database takes the commit -/
  commits : Bool

def rename (taken : String → Bool) (name : Option String) (credential : DnsCredential) :
    Except CredentialError DnsCredential :=
  match name with
  | none => .ok credential
  | some name =>
    if name = credential.name then .ok credential
    else if taken name then .error (.duplicateName name)
    else .ok { credential with name }

def replaceOptions (key : κ) (salt : Nat) (options : Option OptionMap)
    (credential : DnsCredential) : Except CredentialError DnsCredential :=
  match options with
  | none => .ok credential
  | some options => do
    let parts ← splitOptions catalog credential.provider options
    let stored ← secretsOf fernet key credential
    return { credential with
      options := parts.1
      secretsEnc := fernet.encryptSecret key (dumpTexts (merged stored parts.2)) salt }

/-- `update_credential`, up to its commit. -/
def updateCredential (update : CredentialUpdate κ) (credential : DnsCredential) :
    Except CredentialError DnsCredential := do
  replaceOptions fernet catalog update.key update.salt update.options
    (← rename update.taken update.name credential)

/-- The row after the call. -/
def afterUpdate (credential : DnsCredential) (update : CredentialUpdate κ) : DnsCredential :=
  match updateCredential fernet catalog update credential with
  | .ok changed => if update.commits then changed else credential
  | .error _ => credential

/-- The options that the call puts in place, if it replaces any. -/
def acceptedOptions (credential : DnsCredential) (update : CredentialUpdate κ) :
    Option OptionMap :=
  match updateCredential fernet catalog update credential with
  | .ok _ => if update.commits then update.options else none
  | .error _ => none

end

/-! ### Round trip -/

theorem textOf_codePoints (text : String) : textOf (codePoints text) = some text := by
  have chars : ∀ cs : List Char,
      (cs.map Char.toNat).mapM (fun n : Nat => if n.isValidChar then some (Char.ofNat n) else none) =
        some cs := by
    intro cs
    induction cs with
    | nil => rfl
    | cons c cs ih =>
      have valid : c.toNat.isValidChar := c.valid
      rw [List.map_cons, List.mapM_cons, ih, if_pos valid, Char.ofNat_toNat]
      rfl
  rw [textOf, codePoints, chars, Option.map_some, String.ofList_toList]

/-- What was dumped is loaded again. -/
theorem loadTexts_dumpTexts {items : Items String String} (distinct : Distinct items) :
    loadTexts (dumpTexts items) = .ok items := by
  have members : ∀ items : Items String String,
      (items.map fun pair => (codePoints pair.1, Json.text (codePoints pair.2))).mapM textMember =
        some items := by
    intro items
    induction items with
    | nil => rfl
    | cons pair rest ih =>
      rw [List.map_cons, List.mapM_cons, ih]
      simp [textMember, textOf_codePoints]
  rw [loadTexts, dumpTexts, String.toList_ofList,
    readJson_objectText TextStyle.reads_default items distinct,
    Option.bind_some, textObject, textItems, members]
  rfl

/-! ### Split options -/

/-- What an option map supplies for a field: its value trimmed, unless that is blank. -/
def supplies (info : DnsProviderInfo) (field : String) (options : Items String String) :
    Option String :=
  if info.isSecret field then (itemAt options field).bind nonBlank else none

section

variable {info : DnsProviderInfo} {provider : String}

private theorem splitOption_secrets {parts parts' : Items String String × Items String String}
    {option : String × String} (done : splitOption info provider parts option = .ok parts')
    (field : String) :
    itemAt parts'.2 field =
      (if option.1 = field ∧ info.isSecret field then nonBlank option.2 else none).or
        (itemAt parts.2 field) := by
  unfold splitOption at done
  split at done
  · cases done
  next found known =>
    have secret : info.isSecret option.1 = found.secret := by rw [DnsProviderInfo.isSecret, known]; rfl
    split at done
    next blank =>
      cases done
      rw [blank, ite_self]
      rfl
    next value given =>
      split at done
      next hidden =>
        cases done
        rw [itemAt_setItem]
        by_cases same : option.1 = field
        · rw [if_pos same, if_pos ⟨same, by rw [← same, secret, hidden]⟩, given]
          rfl
        · rw [if_neg same, if_neg fun both => same both.1]
          rfl
      next shown =>
        cases done
        rw [if_neg]
        · rfl
        · rintro ⟨rfl, hidden⟩
          exact shown (secret.symm.trans hidden)

private theorem splitOption_distinct {parts parts' : Items String String × Items String String}
    {option : String × String} (done : splitOption info provider parts option = .ok parts')
    (distinct : Distinct parts.2) : Distinct parts'.2 := by
  unfold splitOption at done
  split at done
  · cases done
  · split at done
    · cases done
      exact distinct
    · split at done
      · cases done
        exact distinct.setItem ..
      · cases done
        exact distinct

private theorem splitFields_secrets (options : Items String String) (distinct : Distinct options)
    (parts : Items String String × Items String String)
    (done : options.foldlM (splitOption info provider) ([], []) = .ok parts) :
    Distinct parts.2 ∧ ∀ field, itemAt parts.2 field = supplies info field options := by
  induction options using List.reverseRecOn generalizing parts with
  | nil =>
    cases done
    exact ⟨distinct_nil, fun field => by simp [supplies]⟩
  | append_singleton options option ih =>
    rw [List.foldlM_append] at done
    obtain ⟨before, earlier, done⟩ := bind_eq_ok done
    obtain ⟨last, done, same⟩ := bind_eq_ok done
    cases same
    have keys := distinct
    rw [Distinct, List.map_append, List.nodup_append] at keys
    obtain ⟨distinctBefore, supplied⟩ := ih keys.1 before earlier
    refine ⟨splitOption_distinct done distinctBefore, fun field => ?_⟩
    rw [splitOption_secrets done field, supplied field]
    unfold supplies
    rw [itemAt_append, itemAt_cons, itemAt_nil]
    by_cases same : option.1 = field
    · -- the field stands nowhere else in the map
      have absent : itemAt options field = none := by
        rw [itemAt_eq_none_iff]
        exact fun member => keys.2.2 field member option.1 (by simp) same.symm
      rw [if_pos same, absent]
      cases info.isSecret field <;> simp [same]
    · rw [if_neg same, if_neg fun both => same both.1, Option.or_none]
      rfl

end

/-- The secret options are what the map supplies. -/
theorem splitOptions_secrets {catalog : List DnsProviderInfo} {provider : String}
    {options : OptionMap} {parts : Items String String × Items String String}
    {info : DnsProviderInfo} (known : getProvider catalog provider = .ok info)
    (done : splitOptions catalog provider options = .ok parts) :
    Distinct parts.2 ∧ ∀ field, itemAt parts.2 field = supplies info field options.val := by
  rw [splitOptions, known] at done
  exact splitFields_secrets options.val options.property parts done

/-! ### Histories -/

/-- A credential, and the option maps put in place so far, the last one first. -/
structure CredentialLedger where
  credential : DnsCredential
  accepted : List OptionMap

section

variable {κ : Type} (fernet : Fernet κ) (catalog : List DnsProviderInfo)

def CredentialLedger.next (l : CredentialLedger) (update : CredentialUpdate κ) :
    CredentialLedger where
  credential := afterUpdate fernet catalog l.credential update
  accepted := (acceptedOptions fernet catalog l.credential update).toList ++ l.accepted

/-- Every state of a history. -/
def ledgers (l : CredentialLedger) : List (CredentialUpdate κ) → List CredentialLedger
  | [] => [l]
  | update :: rest => l :: ledgers (l.next fernet catalog update) rest

/-- The last value that is not blank supplied for a field. -/
def lastSupplied (info : DnsProviderInfo) (accepted : List OptionMap) (field : String) :
    Option String :=
  accepted.findSome? fun options => supplies info field options.val

/-- The key opens the stored secrets, and they are the last values supplied for the secret
fields of the provider. -/
def Recoverable (key : κ) (l : CredentialLedger) : Prop :=
  ∃ info text stored, getProvider catalog l.credential.provider = .ok info ∧
    fernet.decryptSecret key l.credential.secretsEnc = some text ∧ loadTexts text = .ok stored ∧
    ∀ field, itemAt stored field = lastSupplied info l.accepted field

/-- The call gives options, and neither they nor its name nor the commit are refused. -/
def ReplacesOptions (credential : DnsCredential) (update : CredentialUpdate κ) : Prop :=
  update.commits = true ∧
  (∀ name ∈ update.name, name = credential.name ∨ update.taken name = false) ∧
  ∃ options ∈ update.options, ∃ info, getProvider catalog credential.provider = .ok info ∧
    ∀ option ∈ options.val, (info.field option.1).isSome = true

/-- Where options are replaced, it is on an instance with this key. -/
def Keeps (key : κ) (l : CredentialLedger) (update : CredentialUpdate κ) : Prop :=
  ReplacesOptions catalog l.credential update → update.key = key

/-- Every update of a history does. -/
def KeepsAll (key : κ) (l : CredentialLedger) : List (CredentialUpdate κ) → Prop
  | [] => True
  | update :: rest =>
    Keeps catalog key l update ∧ KeepsAll key (l.next fernet catalog update) rest

/-- What carries over: the token was made under the key from a dictionary. -/
def Sealed (key : κ) (l : CredentialLedger) : Prop :=
  ∃ info stored salt, getProvider catalog l.credential.provider = .ok info ∧
    l.credential.secretsEnc = fernet.encryptSecret key (dumpTexts stored) salt ∧
    Distinct stored ∧ ∀ field, itemAt stored field = lastSupplied info l.accepted field

end

section

variable {κ : Type} {fernet : Fernet κ} {catalog : List DnsProviderInfo} {key : κ}
  {l : CredentialLedger}

theorem Sealed.recoverable (sealed : Sealed fernet catalog key l) :
    Recoverable fernet catalog key l := by
  obtain ⟨info, stored, salt, known, token, distinct, values⟩ := sealed
  refine ⟨info, dumpTexts stored, stored, known, ?_, loadTexts_dumpTexts distinct, values⟩
  rw [token]
  exact fernet.decrypt_own ..

theorem rename_keeps {taken : String → Bool} {name : Option String} {c c' : DnsCredential}
    (done : rename taken name c = .ok c') :
    c'.provider = c.provider ∧ c'.secretsEnc = c.secretsEnc := by
  unfold rename at done
  split at done
  · cases done
    exact ⟨rfl, rfl⟩
  split at done
  · cases done
    exact ⟨rfl, rfl⟩
  split at done
  · cases done
  · cases done
    exact ⟨rfl, rfl⟩

/-- What an update does: it leaves the token alone, or writes a new one over what it read. -/
theorem updateCredential_cases {update : CredentialUpdate κ} {c c' : DnsCredential}
    (done : updateCredential fernet catalog update c = .ok c') :
    c'.provider = c.provider ∧
    (update.options = none ∧ c'.secretsEnc = c.secretsEnc ∨
      ∃ options parts stored, update.options = some options ∧
        splitOptions catalog c.provider options = .ok parts ∧
        secretsOf fernet update.key c = .ok stored ∧
        c'.secretsEnc =
          fernet.encryptSecret update.key (dumpTexts (merged stored parts.2)) update.salt) := by
  obtain ⟨renamed, first, done⟩ := bind_eq_ok done
  obtain ⟨provider, token⟩ := rename_keeps first
  unfold replaceOptions at done
  split at done
  next none_ =>
    cases done
    exact ⟨provider, Or.inl ⟨none_, token⟩⟩
  next options given =>
    obtain ⟨parts, split, done⟩ := bind_eq_ok done
    obtain ⟨stored, read, done⟩ := bind_eq_ok done
    cases done
    rw [provider] at split
    rw [secretsOf, token] at read
    exact ⟨provider, Or.inr ⟨options, parts, stored, given, split, read, rfl⟩⟩

/-- Where no options are put in place, nothing of the secrets changes. -/
theorem next_quiet {update : CredentialUpdate κ}
    (quiet : acceptedOptions fernet catalog l.credential update = none) :
    (l.next fernet catalog update).accepted = l.accepted ∧
    (l.next fernet catalog update).credential.provider = l.credential.provider ∧
    (l.next fernet catalog update).credential.secretsEnc = l.credential.secretsEnc := by
  refine ⟨by rw [CredentialLedger.next, quiet]; rfl, ?_⟩
  simp only [CredentialLedger.next, afterUpdate]
  unfold acceptedOptions at quiet
  cases done : updateCredential fernet catalog update l.credential with
  | error e => exact ⟨rfl, rfl⟩
  | ok changed =>
    simp only [done] at quiet ⊢
    split at quiet
    next commits =>
      obtain ⟨provider, ⟨_, token⟩ | ⟨options, _, _, given, _⟩⟩ := updateCredential_cases done
      · rw [if_pos commits]
        exact ⟨provider, token⟩
      · rw [given] at quiet
        cases quiet
    next refused =>
      rw [if_neg refused]
      exact ⟨rfl, rfl⟩

/-- Where options are put in place, the token is a new one. -/
theorem next_replaces {update : CredentialUpdate κ} {options : OptionMap}
    (accepted : acceptedOptions fernet catalog l.credential update = some options) :
    (l.next fernet catalog update).accepted = options :: l.accepted ∧
    (l.next fernet catalog update).credential.provider = l.credential.provider ∧
    ∃ parts stored, splitOptions catalog l.credential.provider options = .ok parts ∧
      secretsOf fernet update.key l.credential = .ok stored ∧
      (l.next fernet catalog update).credential.secretsEnc =
        fernet.encryptSecret update.key (dumpTexts (merged stored parts.2)) update.salt := by
  refine ⟨by rw [CredentialLedger.next, accepted]; rfl, ?_⟩
  simp only [CredentialLedger.next, afterUpdate]
  unfold acceptedOptions at accepted
  cases done : updateCredential fernet catalog update l.credential with
  | error e =>
    rw [done] at accepted
    cases accepted
  | ok changed =>
    simp only [done] at accepted ⊢
    split at accepted
    next commits =>
      rw [if_pos commits]
      obtain ⟨provider, ⟨none_, _⟩ | ⟨given, parts, stored, same, split, read, token⟩⟩ :=
        updateCredential_cases done
      · rw [none_] at accepted
        cases accepted
      · rw [same] at accepted
        cases accepted
        exact ⟨provider, parts, stored, split, read, token⟩
    · cases accepted

theorem splitFields_ok_iff {info : DnsProviderInfo} {provider : String}
    (options : Items String String) (parts : Items String String × Items String String) :
    (∃ parts', options.foldlM (splitOption info provider) parts = .ok parts') ↔
      ∀ option ∈ options, (info.field option.1).isSome = true := by
  induction options generalizing parts with
  | nil => simp [pure, Except.pure]
  | cons option rest ih =>
    rw [List.foldlM_cons, List.forall_mem_cons]
    cases known : info.field option.1 with
    | none => simp [splitOption, known, bind, Except.bind]
    | some field =>
      have step : ∃ parts', splitOption info provider parts option = .ok parts' := by
        unfold splitOption
        rw [known]
        simp only
        split
        · exact ⟨_, rfl⟩
        · split
          · exact ⟨_, rfl⟩
          · exact ⟨_, rfl⟩
      obtain ⟨parts', done⟩ := step
      rw [done]
      exact (ih parts').trans (by simp)

theorem splitOptions_ok_iff {provider : String} {options : OptionMap} :
    (∃ parts, splitOptions catalog provider options = .ok parts) ↔
      ∃ info, getProvider catalog provider = .ok info ∧
        ∀ option ∈ options.val, (info.field option.1).isSome = true := by
  unfold splitOptions
  cases getProvider catalog provider with
  | error e => simp [bind, Except.bind]
  | ok info =>
    constructor
    · exact fun ⟨parts, done⟩ => ⟨info, rfl, (splitFields_ok_iff _ _).mp ⟨parts, done⟩⟩
    · rintro ⟨_, ⟨⟩, declared⟩
      exact (splitFields_ok_iff _ _).mpr declared

theorem rename_ok_iff {taken : String → Bool} {name : Option String} {c : DnsCredential} :
    (∃ c', rename taken name c = .ok c') ↔
      ∀ given ∈ name, given = c.name ∨ taken given = false := by
  unfold rename
  cases name with
  | none => simp
  | some given =>
    by_cases same : given = c.name
    · simp [same]
    · cases free : taken given <;> simp [same, free]

/-- Which calls put options in place, on a row whose token is sound. -/
theorem accepted_iff (sealed : Sealed fernet catalog key l) {update : CredentialUpdate κ} :
    (∃ options, acceptedOptions fernet catalog l.credential update = some options) ↔
      ReplacesOptions catalog l.credential update := by
  obtain ⟨info, stored, salt, known, token, distinct, values⟩ := sealed
  -- whatever the key, reading the stored secrets raises nothing
  have readable : ∀ other, ∃ read, secretsOf fernet other l.credential = .ok read := by
    intro other
    unfold secretsOf
    by_cases own : other = key
    · rw [own, token, fernet.decrypt_own]
      exact ⟨stored, loadTexts_dumpTexts distinct⟩
    · rw [token, fernet.decrypt_other _ _ _ _ own]
      exact ⟨[], rfl⟩
  constructor
  · rintro ⟨options, accepted⟩
    obtain ⟨_, _, parts, _, split, _, _⟩ := next_replaces accepted
    unfold acceptedOptions at accepted
    split at accepted
    next changed done =>
      split at accepted
      next commits =>
        obtain ⟨renamed, first, _⟩ := bind_eq_ok done
        exact ⟨commits, rename_ok_iff.mp ⟨renamed, first⟩, options, accepted,
          splitOptions_ok_iff.mp ⟨parts, split⟩⟩
      · cases accepted
    · cases accepted
  · rintro ⟨commits, free, options, given, declared⟩
    obtain ⟨renamed, first⟩ := rename_ok_iff.mpr free
    obtain ⟨provider, token'⟩ := rename_keeps first
    obtain ⟨parts, split⟩ := splitOptions_ok_iff.mpr declared
    obtain ⟨read, opened⟩ := readable update.key
    have again : secretsOf fernet update.key renamed = .ok read := by
      rw [secretsOf, token']
      exact opened
    refine ⟨options, ?_⟩
    have done : ∃ changed, updateCredential fernet catalog update l.credential = .ok changed := by
      rw [updateCredential, first, Option.mem_def.mp given]
      simp only [bind, Except.bind, replaceOptions, provider, split, again]
      exact ⟨_, rfl⟩
    obtain ⟨changed, done⟩ := done
    rw [acceptedOptions, done]
    simp only [commits, if_true]
    exact given

/-- One update keeps the secrets when it runs under the key they were stored under. -/
theorem Sealed.next (sealed : Sealed fernet catalog key l) {update : CredentialUpdate κ}
    (keeps : Keeps catalog key l update) :
    Sealed fernet catalog key (l.next fernet catalog update) := by
  have replaces : (∃ options, acceptedOptions fernet catalog l.credential update = some options) ↔
      ReplacesOptions catalog l.credential update := accepted_iff sealed
  obtain ⟨info, stored, salt, known, token, distinct, values⟩ := sealed
  cases accepted : acceptedOptions fernet catalog l.credential update with
  | none =>
    obtain ⟨same, provider, token'⟩ := next_quiet accepted
    refine ⟨info, stored, salt, by rw [provider, known], by rw [token', token], distinct, ?_⟩
    rw [same]
    exact values
  | some options =>
    obtain ⟨more, provider, parts, read, split, opened, token'⟩ := next_replaces accepted
    have own : update.key = key := keeps (replaces.mp ⟨options, accepted⟩)
    have reads : read = stored := by
      rw [secretsOf, token, own, fernet.decrypt_own] at opened
      simp only [loadTexts_dumpTexts distinct, Except.ok.injEq] at opened
      exact opened.symm
    obtain ⟨distinctNew, supplied⟩ := splitOptions_secrets known split
    refine ⟨info, merged read parts.2, update.salt, by rw [provider, known], by rw [token', own],
      reads ▸ distinct.merged parts.2, fun field => ?_⟩
    rw [itemAt_merged _ distinctNew, supplied, reads, values, more, lastSupplied, lastSupplied,
      List.findSome?_cons]
    cases supplies info field options.val <;> rfl

/-- Under any other key the token is one that the first key does not open. -/
theorem lost_next (sealed : Sealed fernet catalog key l) {update : CredentialUpdate κ}
    (other : ¬Keeps catalog key l update) :
    ¬Recoverable fernet catalog key (l.next fernet catalog update) := by
  rintro ⟨info, text, stored, _, opened, _⟩
  unfold Keeps at other
  obtain ⟨replaced, apart⟩ := Classical.not_imp.mp other
  obtain ⟨options, accepted⟩ := (accepted_iff sealed).mpr replaced
  obtain ⟨_, _, parts, read, _, _, token⟩ := next_replaces accepted
  rw [token, fernet.decrypt_other _ _ _ _ (Ne.symm apart)] at opened
  cases opened

private theorem recoverable_all_iff (sealed : Sealed fernet catalog key l)
    (updates : List (CredentialUpdate κ)) :
    (∀ state ∈ ledgers fernet catalog l updates, Recoverable fernet catalog key state) ↔
      KeepsAll fernet catalog key l updates := by
  induction updates generalizing l with
  | nil => simpa [ledgers, KeepsAll] using sealed.recoverable
  | cons update rest ih =>
    rw [ledgers, List.forall_mem_cons, KeepsAll]
    constructor
    · rintro ⟨_, later⟩
      have keeps : Keeps catalog key l update := by
        by_contra other
        refine lost_next sealed other (later _ ?_)
        cases rest with
        | nil => exact List.mem_singleton_self _
        | cons _ _ => exact List.mem_cons_self ..
      exact ⟨keeps, (ih (sealed.next keeps)).mp later⟩
    · rintro ⟨keeps, others⟩
      exact ⟨sealed.recoverable, (ih (sealed.next keeps)).mpr others⟩

theorem sealed_created {salt : Nat} {taken : String → Bool} {name provider : String}
    {options : OptionMap} {credential : DnsCredential}
    (created : createCredential fernet catalog key salt taken name provider options =
      .ok credential) : Sealed fernet catalog key ⟨credential, [options]⟩ := by
  obtain ⟨parts, split, created⟩ := bind_eq_ok created
  obtain ⟨info, known, _⟩ := bind_eq_ok split
  obtain ⟨distinct, supplied⟩ := splitOptions_secrets known split
  dsimp only at created
  split at created
  · cases created
  split at created
  · cases created
  cases created
  refine ⟨info, parts.2, salt, known, rfl, distinct, fun field => ?_⟩
  rw [supplied, lastSupplied, List.findSome?_cons]
  cases supplies info field options.val <;> rfl

/-- From the creation on, the key it ran under gives back every secret last supplied exactly as
long as options are replaced under that same key. -/
theorem recoverable_iff {salt : Nat} {taken : String → Bool} {name provider : String}
    {options : OptionMap} {credential : DnsCredential}
    (created : createCredential fernet catalog key salt taken name provider options =
      .ok credential) (updates : List (CredentialUpdate κ)) :
    (∀ state ∈ ledgers fernet catalog ⟨credential, [options]⟩ updates,
      Recoverable fernet catalog key state) ↔
    KeepsAll fernet catalog key ⟨credential, [options]⟩ updates :=
  recoverable_all_iff (sealed_created created) updates

end

/-! ### A change of key -/

/-- A token is its text behind a letter that stands for the key. -/
def letterFernet : Fernet Bool where
  encryptSecret key text _ := String.ofList ((if key then 'a' else 'b') :: text.toList)
  decryptSecret key token :=
    if token.toList.head? = some (if key then 'a' else 'b') then
      some (String.ofList token.toList.tail)
    else none
  decrypt_own key text _ := by simp
  decrypt_other key other text _ apart := by cases key <;> cases other <;> simp_all

def cloudflareCatalog : List DnsProviderInfo :=
  [{ id := "cloudflare", fields := [⟨"auth_token", true⟩, ⟨"zone_id", false⟩] }]

def tokenOptions : OptionMap :=
  ⟨[("auth_token", "t0"), ("zone_id", "z1")], by decide⟩

/-- The credential that these options make under the first key. -/
def tokenCredential : DnsCredential where
  name := "cf"
  provider := "cloudflare"
  options := [("zone_id", "z1")]
  secretsEnc := letterFernet.encryptSecret true (dumpTexts [("auth_token", "t0")]) 0

/-- A new zone, and the token left out. -/
def zoneUpdate (key : Bool) : CredentialUpdate Bool where
  key
  salt := 1
  taken _ := false
  name := none
  options := some ⟨[("zone_id", "z2")], by decide⟩
  commits := true

theorem created_tokenCredential :
    createCredential letterFernet cloudflareCatalog true 0 (fun _ => false) "cf" "cloudflare"
      tokenOptions = .ok tokenCredential := by
  have split : splitOptions cloudflareCatalog "cloudflare" tokenOptions =
      .ok ([("zone_id", "z1")], [("auth_token", "t0")]) := by decide +kernel
  rw [createCredential, split]
  rfl

theorem replaces_zoneUpdate (key : Bool) :
    ReplacesOptions cloudflareCatalog tokenCredential (zoneUpdate key) := by
  refine ⟨rfl, by simp [zoneUpdate], _, rfl, _, rfl, ?_⟩
  decide

/-- The zone changed twice on instances with the first key. -/
theorem recoverable_sameKey :
    createCredential letterFernet cloudflareCatalog true 0 (fun _ => false) "cf" "cloudflare"
      tokenOptions = .ok tokenCredential ∧
    ∀ state ∈ ledgers letterFernet cloudflareCatalog ⟨tokenCredential, [tokenOptions]⟩
      [zoneUpdate true, zoneUpdate true], Recoverable letterFernet cloudflareCatalog true state :=
  ⟨created_tokenCredential,
    (recoverable_iff created_tokenCredential [zoneUpdate true, zoneUpdate true]).mpr
      ⟨fun _ => rfl, fun _ => rfl, trivial⟩⟩

/-- On an instance with another key the update drops the token that it was not given. -/
theorem secret_lost :
    createCredential letterFernet cloudflareCatalog true 0 (fun _ => false) "cf" "cloudflare"
      tokenOptions = .ok tokenCredential ∧
    ¬∀ state ∈ ledgers letterFernet cloudflareCatalog ⟨tokenCredential, [tokenOptions]⟩
      [zoneUpdate false], Recoverable letterFernet cloudflareCatalog true state := by
  refine ⟨created_tokenCredential, fun all => ?_⟩
  refine lost_next (sealed_created created_tokenCredential) ?_ (all _ (List.mem_cons_of_mem _
    (List.mem_singleton_self _)))
  exact fun keeps => absurd (keeps (replaces_zoneUpdate false)) (by decide)

end MegooPM
