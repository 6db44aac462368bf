import MegooPM.Pages.AccessListForm

/-!
# Saving the access-list form

A save of the form that was only opened, and how the form and the API agree on the users of
any other. The rules of an opened form come back as they are when none of their addresses
loses anything to ECMAScript's trimming, which only a scope id that ends in a byte order mark
does, and when they were read in the order of their ids.
-/
namespace MegooPM

open Lib

/-! ### Addresses that are stored -/

theorem toList_trim (text : String) : (trim text).toList = trimBy isJsSpace text.toList :=
  String.toList_ofList

theorem toList_stripped (text : String) :
    (stripped text).toList = trimBy isSpace text.toList := by
  rw [stripped, String.toList_ofList, strip_eq_trimBy]

theorem trim_trim (text : String) : trim (trim text) = trim text := by
  rw [trim, toList_trim, trimBy_trimBy]
  rfl

theorem length_trim_le (text : String) : (trim text).length ≤ text.length := by
  rw [← String.length_toList, toList_trim, ← String.length_toList]
  exact length_trimBy_le _ _

theorem length_stripped_le (text : String) : (stripped text).length ≤ text.length := by
  rw [← String.length_toList, toList_stripped, ← String.length_toList]
  exact length_trimBy_le _ _

theorem length_trim_lt {text : String} (changed : trim text ≠ text) :
    (trim text).length < text.length := by
  refine lt_of_le_of_ne (length_trim_le text) fun same => changed ?_
  rw [← String.toList_inj, toList_trim]
  refine eq_of_length_trimBy ?_
  rw [← toList_trim, String.length_toList, String.length_toList, same]

/-- Neither side has white space among the printed characters of ASCII. -/
theorem space_of_graphic {c : Char} (above : 0x20 < c.toNat) (below : c.toNat < 0x7f) :
    isJsSpace c = false ∧ isSpace c = false := by
  constructor
  · simp only [isJsSpace, List.any_cons, List.any_nil, Bool.or_false, Bool.or_eq_false_iff,
      decide_eq_false_iff_not]
    omega
  · simp only [isSpace, List.any_cons, List.any_nil, Bool.or_false, Bool.or_eq_false_iff,
      decide_eq_false_iff_not]
    omega

theorem space_of_literalChar {c : Char} (literal : Lib.Ip.literalChar c = true) :
    isJsSpace c = false ∧ isSpace c = false := by
  have bounds : 0x20 < c.toNat ∧ c.toNat < 0x7f := by
    simp only [Lib.Ip.literalChar, Lib.Ip.V6.isHexDigit, Char.isDigit, Bool.or_eq_true,
      Bool.and_eq_true, decide_eq_true_eq, Char.le_def, UInt32.le_iff_toNat_le] at literal
    rcases literal with (((digit | lower) | upper) | rfl) | rfl
    · obtain ⟨low, high⟩ := digit
      exact ⟨Nat.lt_of_lt_of_le (by decide) low, Nat.lt_of_le_of_lt high (by decide)⟩
    · obtain ⟨low, high⟩ := lower
      exact ⟨Nat.lt_of_lt_of_le (by decide) low, Nat.lt_of_le_of_lt high (by decide)⟩
    · obtain ⟨low, high⟩ := upper
      exact ⟨Nat.lt_of_lt_of_le (by decide) low, Nat.lt_of_le_of_lt high (by decide)⟩
    · decide
    · decide
  exact space_of_graphic bounds.1 bounds.2

/-- A text with a colon or a dot in it is not `all` in any case. -/
theorem toLower_ne_all {text : String} (sign : ':' ∈ text.toList ∨ '.' ∈ text.toList) :
    text.toLower ≠ "all" := by
  intro everyone
  have lowered : (text.toList.map Char.toLower) = "all".toList := by
    rw [← everyone, String.toLower, String.toList_map]
  rcases sign with colon | dot
  · have member := List.mem_map_of_mem (f := Char.toLower) colon
    rw [lowered] at member
    exact absurd member (by decide)
  · have member := List.mem_map_of_mem (f := Char.toLower) dot
    rw [lowered] at member
    exact absurd member (by decide)

theorem ipNetwork_addressLibrary (text : String) : addressLibrary.ipNetwork text =
    (Lib.Ip.ipNetwork text.toList).map String.ofList :=
  ipNetwork_pythonLibrary text

theorem ipAddress_addressLibrary (text : String) : addressLibrary.ipAddress text =
    (Lib.Ip.ipAddress text.toList).map String.ofList :=
  ipAddress_pythonLibrary text

section Stored

variable {raw address : String}

/-- What a validated address is. -/
theorem address_cases (stored : validateAddress addressLibrary raw = .ok address) :
    address = "all" ∨ Lib.Ip.ipNetwork (stripped raw).toList = some address.toList ∨
      Lib.Ip.ipAddress (stripped raw).toList = some address.toList := by
  simp only [validateAddress] at stored
  split at stored
  · cases stored
  · split at stored
    · cases stored
      exact Or.inl rfl
    · split at stored
      next form found =>
        cases stored
        split at found
        · rw [ipNetwork_addressLibrary] at found
          obtain ⟨printed, read, rfl⟩ := Option.map_eq_some_iff.mp found
          rw [String.toList_ofList]
          exact Or.inr (Or.inl read)
        · rw [ipAddress_addressLibrary] at found
          obtain ⟨printed, read, rfl⟩ := Option.map_eq_some_iff.mp found
          rw [String.toList_ofList]
          exact Or.inr (Or.inr read)
      · cases stored

/-- A text with a colon and without a mask is read as an address. -/
theorem address_unmasked (stored : validateAddress addressLibrary raw = .ok address)
    (colon : ':' ∈ (stripped raw).toList) (unmasked : '/' ∉ (stripped raw).toList) :
    Lib.Ip.ipAddress (stripped raw).toList = some address.toList := by
  simp only [validateAddress, if_neg unmasked] at stored
  split at stored
  · cases stored
  · split at stored
    next everyone => exact absurd everyone (toLower_ne_all (Or.inl colon))
    · split at stored
      next form found =>
        cases stored
        rw [ipAddress_addressLibrary] at found
        obtain ⟨printed, read, rfl⟩ := Option.map_eq_some_iff.mp found
        rw [String.toList_ofList, read]
      · cases stored

/-- It begins like an address. -/
theorem address_head (stored : validateAddress addressLibrary raw = .ok address) {c : Char}
    (head : address.toList.head? = some c) : Lib.Ip.literalChar c = true := by
  obtain ⟨first, rest, spelled, begins⟩ :=
    beginsAddress_of_validated (documented_pythonLibrary _ _) stored
  rw [spelled] at head
  cases head
  simp only [beginsAddress, Bool.or_eq_true, decide_eq_true_eq] at begins
  simp only [Lib.Ip.literalChar, Lib.Ip.V6.isHexDigit, Bool.or_eq_true, decide_eq_true_eq]
  exact Or.inl (by simpa using begins)

/-- It ends like one too, unless a scope id taken from the end of the text ends it. -/
theorem address_last (stored : validateAddress addressLibrary raw = .ok address) :
    (∀ c, address.toList.getLast? = some c → isJsSpace c = false ∧ isSpace c = false) ∨
      ∃ ip scope, Lib.Ip.IsScope scope ∧ scope <:+ (stripped raw).toList ∧
        address.toList = Lib.Ip.V6.stringFromIpInt ip ++ '%' :: scope := by
  rcases address_cases stored with rfl | network | address_
  · refine Or.inl fun c last => ?_
    cases last
    decide
  · obtain ⟨front, length, form⟩ := Lib.Ip.ipNetwork_shape network
    refine Or.inl fun c last => ?_
    have some_ : Nat.toDigits 10 length ≠ [] := Nat.toDigits_ne_nil
    rw [form, List.getLast?_append_of_ne_nil _ (List.cons_ne_nil _ _),
      List.getLast?_cons_of_ne_nil some_] at last
    have digit := Nat.isDigit_of_mem_toDigits (by decide) (by decide) (List.mem_of_getLast? last)
    exact space_of_literalChar (by simp [Lib.Ip.literalChar, Lib.Ip.V6.isHexDigit, digit])
  · rcases Lib.Ip.ipAddress_shape address_ with literal | zone
    · exact Or.inl fun c last => space_of_literalChar (literal c (List.mem_of_getLast? last))
    · exact Or.inr zone

theorem stripped_eq_self {text : String} (first : ∀ c, text.toList.head? = some c → isSpace c = false)
    (last : ∀ c, text.toList.getLast? = some c → isSpace c = false) : stripped text = text := by
  rw [← String.toList_inj, toList_stripped]
  exact trimBy_eq_self first last

/-- Python leaves a stored address as it is. -/
theorem stripped_address (stored : validateAddress addressLibrary raw = .ok address) :
    stripped address = address := by
  refine stripped_eq_self (fun c head => (space_of_literalChar (address_head stored head)).2) ?_
  intro c last
  rcases address_last stored with plain | ⟨ip, scope, good, behind, form⟩
  · exact (plain c last).2
  · -- the scope id ends as the text did
    obtain ⟨front, whole⟩ := behind
    rw [form, List.getLast?_append_of_ne_nil _ (List.cons_ne_nil _ _),
      List.getLast?_cons_of_ne_nil good.1] at last
    have ends : (trimBy isSpace raw.toList).getLast? = some c := by
      rw [← toList_stripped, ← whole, List.getLast?_append_of_ne_nil _ good.1, last]
    exact trimBy_last ends

/-- A stored address is validated to itself. -/
theorem validateAddress_again (stored : validateAddress addressLibrary raw = .ok address) :
    validateAddress addressLibrary address = .ok address := by
  have same := stripped_address stored
  have some_ : address ≠ "" := by
    rintro rfl
    obtain ⟨_, _, spelled, _⟩ := beginsAddress_of_validated (documented_pythonLibrary _ _) stored
    cases spelled
  rcases address_cases stored with rfl | network | address_
  · decide +kernel
  · obtain ⟨front, length, form⟩ := Lib.Ip.ipNetwork_shape network
    have masked : '/' ∈ address.toList := by simp [form]
    have other : addressLibrary.lower address ≠ "all" :=
      toLower_ne_all (Lib.Ip.sign_mem_form (Or.inl network))
    have again : addressLibrary.ipNetwork address = some address := by
      rw [ipNetwork_addressLibrary, Lib.Ip.ipNetwork_again network, Option.map_some,
        String.ofList_toList]
    simp only [validateAddress, same, if_neg some_, if_neg other, if_pos masked, again]
  · have plain : '/' ∉ address.toList := Lib.Ip.slash_not_mem_address address_
    have other : addressLibrary.lower address ≠ "all" :=
      toLower_ne_all (Lib.Ip.sign_mem_form (Or.inr address_))
    have again : addressLibrary.ipAddress address = some address := by
      rw [ipAddress_addressLibrary, Lib.Ip.ipAddress_again address_, Option.map_some,
        String.ofList_toList]
    simp only [validateAddress, same, if_neg some_, if_neg other, if_neg plain, again]

theorem normalizeAddress_stored (stored : validateAddress addressLibrary raw = .ok address)
    (kept : trim address = address) : normalizeAddress address = address := by
  unfold normalizeAddress
  rw [kept]
  rcases address_cases stored with rfl | network | address_
  · exact ite_self _
  · exact if_neg (toLower_ne_all (Lib.Ip.sign_mem_form (Or.inl network)))
  · exact if_neg (toLower_ne_all (Lib.Ip.sign_mem_form (Or.inr address_)))

/-- What both sides cut off the end of an address with a scope id lies in the scope id. -/
private theorem cut_scope {ip : Nat} {scope left cut : List Char}
    (whole : Lib.Ip.V6.stringFromIpInt ip ++ '%' :: scope = left ++ cut) (plain : '%' ∉ cut) :
    ∃ rest, left = Lib.Ip.V6.stringFromIpInt ip ++ '%' :: rest := by
  rcases List.append_eq_append_iff.mp whole with ⟨more, rfl, sign⟩ | ⟨more, _, rfl⟩
  · cases more with
    | nil =>
      rw [List.nil_append] at sign
      exact absurd (sign ▸ List.mem_cons_self ..) plain
    | cons c rest =>
      rw [List.cons_append, List.cons.injEq] at sign
      exact ⟨rest, by rw [sign.1]⟩
  · exact absurd (List.mem_append_right _ (List.mem_cons_self ..)) plain

/-- What is left of an address with a scope id, once ECMAScript and then Python have cut its
end: a part of it that still has the sign. -/
private theorem trimmed_scope {ip : Nat} {scope : List Char}
    (head : ∀ c, address.toList.head? = some c → isJsSpace c = false ∧ isSpace c = false)
    (spelled : address.toList = Lib.Ip.V6.stringFromIpInt ip ++ '%' :: scope) :
    ∃ rest, (stripped (trim address)).toList = Lib.Ip.V6.stringFromIpInt ip ++ '%' :: rest := by
  obtain ⟨cut, whole, white⟩ := trimBy_of_head fun c first => (head c first).1
  have front : ∀ c, (trim address).toList.head? = some c → isSpace c = false := by
    intro c first
    refine (head c ?_).2
    rw [whole, List.head?_append, ← toList_trim, first]
    rfl
  obtain ⟨cut', whole', white'⟩ := trimBy_of_head front
  rw [← toList_trim, whole', List.append_assoc, ← toList_stripped] at whole
  refine cut_scope (spelled.symm.trans whole) fun sign => ?_
  rcases List.mem_append.mp sign with inside | inside
  · exact absurd (white' _ inside) (by decide)
  · exact absurd (white _ inside) (by decide)

/-- An address that trimming changes is stored anew as a shorter one, if at all. -/
theorem trimmed_shorter (stored : validateAddress addressLibrary raw = .ok address)
    (changed : trim address ≠ address) {form : String}
    (accepted : validateAddress addressLibrary (normalizeAddress address) = .ok form) :
    form.length < address.length := by
  have head : ∀ c, address.toList.head? = some c → isJsSpace c = false ∧ isSpace c = false :=
    fun c first => space_of_literalChar (address_head stored first)
  rcases address_last stored with plain | ⟨ip, scope, good, _, spelled⟩
  · -- nothing of it is cut
    refine absurd ?_ changed
    rw [trim, trimBy_eq_self (fun c first => (head c first).1) fun c last => (plain c last).1,
      String.ofList_toList]
  · obtain ⟨rest, parts⟩ := trimmed_scope head spelled
    have colon : ':' ∈ (stripped (trim address)).toList := by
      rw [parts]
      exact List.mem_append_left _ (Lib.Ip.colon_mem_v6 ip)
    have kept : (stripped (trim address)).toList ⊆ (trim address).toList := by
      rw [toList_stripped]
      exact trimBy_subset _ _
    have unmasked : '/' ∉ (stripped (trim address)).toList := by
      intro slash
      have inside := kept slash
      rw [toList_trim] at inside
      have there := trimBy_subset _ _ inside
      rw [spelled] at there
      rcases List.mem_append.mp there with literal | behind
      · exact absurd ((Lib.Ip.v6_stringFromIpInt ip).chars _ literal) (by decide)
      · exact good.2.2 ((List.mem_cons.mp behind).resolve_left (by decide))
    have normal : normalizeAddress address = trim address :=
      if_neg (toLower_ne_all (Or.inl (kept colon)))
    rw [normal] at accepted
    -- the form is what is left of the text
    have read := address_unmasked accepted colon unmasked
    rw [parts, Lib.Ip.ipAddress_scoped, ← parts] at read
    by_cases scoped_ : Lib.Ip.IsScope rest
    · rw [if_pos scoped_] at read
      rw [← String.toList_inj.mp (Option.some.inj read)]
      exact lt_of_le_of_lt (length_stripped_le _) (length_trim_lt changed)
    · rw [if_neg scoped_] at read
      cases read

end Stored

/-! ### The opened form -/

/-- A list as its requests leave it: what is stored passed its check and fits its column. -/
structure AccessList.Checked (a : AccessList) : Prop where
  name : shortText a.name = .ok a.name
  usernames : ∀ u ∈ a.authUsers, shortText u.username = .ok u.username ∧
    ∃ raw, validateUsername raw = .ok u.username
  distinct : (a.authUsers.map (·.username)).Nodup
  addresses : ∀ r ∈ a.clientRules, shortText r.address = .ok r.address ∧
    ∃ raw, validateAddress addressLibrary raw = .ok r.address

theorem submittableUsers_opened (list : AccessList) : submittableUsers (openedForm list) =
    list.authUsers.map fun u => { id := some u.id, username := u.username, password := "" } := by
  have rows : (openedForm list).users =
      list.authUsers.map fun u => { id := some u.id, username := u.username, password := "" } :=
    List.map_map
  rw [submittableUsers, rows, List.filter_eq_self]
  intro row member
  obtain ⟨u, _, rfl⟩ := List.mem_map.mp member
  rfl

theorem submittableClients_opened (list : AccessList) : submittableClients (openedForm list) =
    list.clientRules.map fun c =>
      { id := some c.id, address := c.address, directive := c.directive } := by
  have rows : (openedForm list).clients = list.clientRules.map fun c =>
      { id := some c.id, address := c.address, directive := c.directive } :=
    List.map_map
  rw [submittableClients, rows, List.filter_eq_self]
  intro row member
  obtain ⟨c, _, rfl⟩ := List.mem_map.mp member
  rfl

theorem shortText_ok_iff {text same : String} :
    shortText text = .ok same ↔ same = text ∧ text ≠ "" ∧ text.length ≤ 255 := by
  unfold shortText
  split
  next short =>
    refine iff_of_false (fun accepted => by cases accepted) fun good => ?_
    have empty : text.length = 0 := by omega
    exact good.2.1 (String.length_eq_zero_iff.mp empty)
  next some_ =>
    have other : text ≠ "" := by
      rintro rfl
      exact some_ (by decide)
    split
    next long => exact iff_of_false (fun accepted => by cases accepted) fun good => by omega
    next fits =>
      constructor
      · intro accepted
        cases accepted
        exact ⟨rfl, other, by omega⟩
      · rintro ⟨rfl, _⟩
        rfl

/-- A trimmed text that is not empty still fits. -/
theorem shortText_trim {text : String} (stored : shortText text = .ok text)
    (some_ : trim text ≠ "") : shortText (trim text) = .ok (trim text) :=
  shortText_ok_iff.mpr ⟨rfl, some_,
    Nat.le_trans (length_trim_le text) (shortText_ok_iff.mp stored).2.2⟩

theorem shortText_normalizeAddress {address : String} (stored : shortText address = .ok address)
    (some_ : normalizeAddress address ≠ "") :
    shortText (normalizeAddress address) = .ok (normalizeAddress address) := by
  refine shortText_ok_iff.mpr ⟨rfl, some_, ?_⟩
  unfold normalizeAddress
  dsimp only
  split
  · decide
  · exact Nat.le_trans (length_trim_le address) (shortText_ok_iff.mp stored).2.2

/-- A stored name is validated to itself. -/
theorem validateUsername_again {raw name : String} (stored : validateUsername raw = .ok name) :
    stripped name = name ∧ validateUsername name = .ok name := by
  have plain := username_of_validated stored
  have same : stripped name = name :=
    stripped_eq_self (fun c head => plain c (List.mem_of_mem_head? head))
      fun c last => plain c (List.mem_of_getLast? last)
  refine ⟨same, ?_⟩
  simp only [validateUsername] at stored ⊢
  split at stored
  · cases stored
  next some_ =>
    split at stored
    · cases stored
    next spelled =>
      cases stored
      rw [same, if_neg some_, if_neg spelled]

/-- A user that is sent by name alone. -/
private theorem validated_alone {name : String} (short : shortText name = .ok name)
    (stored : ∃ raw, validateUsername raw = .ok name) :
    (⟨name, none⟩ : AccessListAuthReplace).validated = .ok ⟨name, none⟩ := by
  obtain ⟨raw, stored⟩ := stored
  simp only [AccessListAuthReplace.validated, short, (validateUsername_again stored).2, bind,
    Except.bind]
  rfl

/-- The stored users, sent by name alone, stay as they are. -/
theorem replaceAuthUsers_same {hashApr1 : AuthUserIn → String} {userIds : Sequence}
    {users : List AccessListAuth} (distinct : (users.map (·.username)).Nodup) :
    replaceAuthUsers hashApr1 users (userIds.number (fun id (u : AccessListAuthReplace) =>
      { id, username := u.username, password := u.password })
        (users.map fun u => ⟨u.username, none⟩)) = .ok users := by
  unfold replaceAuthUsers
  dsimp only
  rw [if_neg]
  · congr 1
    refine List.ext_getElem (by simp [Sequence.number]) fun i _ within => ?_
    have found : users.find? (·.username = users[i].username) = some users[i] :=
      find?_key distinct (List.getElem_mem within)
    simp only [Sequence.number, List.getElem_map, List.getElem_mapIdx, found]
    rfl
  · rw [not_not, List.filter_eq_nil_iff]
    intro spec member missing
    obtain ⟨id, u, listed, rfl⟩ := Sequence.mem_number member
    obtain ⟨row, inside, rfl⟩ := List.mem_map.mp listed
    have absent := of_decide_eq_true missing
    exact absent.2 (List.mem_map_of_mem inside)

/-- A save of the opened form goes through: the form has no problem with it, trimming changes
no name, and the API accepts every address as it is sent. -/
structure GoesThrough (list : AccessList) : Prop where
  unflagged : validateAccessListForm (openedForm list) = none
  names : ∀ u ∈ list.authUsers, trim u.username = u.username
  addresses : ∀ r ∈ list.clientRules, ∃ form,
    validateAddress addressLibrary (normalizeAddress r.address) = .ok form

/-- What an address of the form is stored as. -/
def savedAddress (address : String) : String :=
  (validateAddress addressLibrary (normalizeAddress address)).toOption.getD address

section Saving

variable {hashApr1 : AuthUserIn → String} {userIds ruleIds : Sequence} {list : AccessList}

theorem GoesThrough.saved (goes : GoesThrough list) : ∀ r ∈ list.clientRules,
    validateAddress addressLibrary (normalizeAddress r.address) = .ok (savedAddress r.address) := by
  intro r member
  obtain ⟨form, accepted⟩ := goes.addresses r member
  rw [savedAddress, accepted]
  rfl

/-- The rules of the payload, as they are stored. -/
def savedRules (list : AccessList) : List AccessListClientCreate :=
  list.clientRules.map fun r => { address := savedAddress r.address, directive := r.directive }

theorem GoesThrough.users_validated (checked : list.Checked) (goes : GoesThrough list) :
    ((submittableUsers (openedForm list)).map userPayload).mapM (·.validated) =
      .ok (list.authUsers.map fun u => ⟨u.username, none⟩) := by
  have payload : (submittableUsers (openedForm list)).map userPayload =
      list.authUsers.map fun u => (⟨u.username, none⟩ : AccessListAuthReplace) := by
    rw [submittableUsers_opened, List.map_map]
    refine List.map_congr_left fun u member => ?_
    simp [userPayload, goes.names u member]
  rw [payload, mapM_eq_ok (g := id), List.map_id]
  intro given member
  obtain ⟨u, inside, rfl⟩ := List.mem_map.mp member
  obtain ⟨short, stored⟩ := checked.usernames u inside
  exact validated_alone short stored

theorem GoesThrough.rules_validated (checked : list.Checked) (goes : GoesThrough list) :
    (clientPayload (openedForm list)).mapM (·.validated addressLibrary) =
      .ok (savedRules list) := by
  have filled := rulesProblem_eq_none_iff.mp
    (validateAccessListForm_eq_none_iff.mp goes.unflagged).2.2
  rw [submittableClients_opened, List.forall_mem_map] at filled
  rw [clientPayload, submittableClients_opened, List.map_map, List.mapM_map]
  refine mapM_eq_ok fun r member => ?_
  have short := shortText_normalizeAddress (checked.addresses r member).1 (filled r member)
  simp only [Function.comp, AccessListClientCreate.validated, short, goes.saved r member, bind,
    Except.bind]

/-- What a request for the opened form leaves to be committed. -/
theorem GoesThrough.applied (checked : list.Checked) (goes : GoesThrough list) :
    (buildUpdatePayload (openedForm list)).applied hashApr1 userIds ruleIds list =
      .ok { list with
        name := trim list.name
        clientRules := ruleIds.number (fun id c =>
          { id, address := c.address, directive := c.directive }) (savedRules list) } := by
  have named : shortText (trim list.name) = .ok (trim list.name) :=
    shortText_trim checked.name (validateAccessListForm_eq_none_iff.mp goes.unflagged).1
  have unique : (list.authUsers.map fun u =>
      (⟨u.username, none⟩ : AccessListAuthReplace)).map (·.username) |>.Nodup := by
    rw [List.map_map]
    exact checked.distinct
  have valid : (buildUpdatePayload (openedForm list)).validated addressLibrary =
      .ok { buildUpdatePayload (openedForm list) with
        authUsers := .set (list.authUsers.map fun u => ⟨u.username, none⟩)
        clients := .set (savedRules list) } := by
    have named' : shortText (trim (openedForm list).name) = .ok (trim (openedForm list).name) :=
      named
    simp only [AccessListUpdate.validated, buildUpdatePayload, Change.validated, named',
      goes.users_validated checked, goes.rules_validated checked, uniqueUsernames, if_pos unique,
      bind, Except.bind, Except.map]
  rw [AccessListUpdate.applied, valid]
  simp only [Except.mapError, bind, Except.bind, updatedAuthUsers, AccessListUpdate.changes,
    Change.value?, Option.map_some, replaceAuthUsers_same checked.distinct]
  rfl

/-- A stored name that the replacement finds under its trimmed spelling is not changed. -/
private theorem trim_stored_name (checked : list.Checked)
    (unflagged : validateAccessListForm (openedForm list) = none)
    (known : NamesKnown list (openedForm list)) :
    ∀ u ∈ list.authUsers, trim u.username = u.username := by
  intro u member
  have distinct := (usersProblem_eq_none_iff.mp
    (validateAccessListForm_eq_none_iff.mp unflagged).2.1).2.1
  have stored := known.stored
  rw [submittableUsers_opened, List.map_map] at distinct
  rw [submittableUsers_opened, List.forall_mem_map] at stored
  obtain ⟨raw, valid⟩ := (checked.usernames u member).2
  -- no blank is left for Python to strip
  have plain : ∀ c ∈ (trim u.username).toList, isSpace c = false := by
    intro c inside
    rw [toList_trim] at inside
    exact username_of_validated valid c (trimBy_subset _ _ inside)
  have same : apiName ⟨some u.id, u.username, ""⟩ = trim u.username :=
    stripped_eq_self (fun c head => plain c (List.mem_of_mem_head? head))
      fun c last => plain c (List.mem_of_getLast? last)
  obtain ⟨v, inside, named⟩ := List.mem_map.mp (stored u member rfl)
  rw [same] at named
  have own : v = u := by
    refine List.inj_on_of_nodup_map distinct inside member ?_
    show trim v.username = trim u.username
    rw [named, trim_trim]
  rw [← named, own]

/-- Only a form that goes through is saved. -/
theorem goesThrough_of_saved (checked : list.Checked) {after : AccessList}
    (saved : handleSubmit hashApr1 userIds ruleIds list (openedForm list) = some (.ok after)) :
    GoesThrough list := by
  unfold handleSubmit at saved
  split at saved
  · cases saved
  next unflagged =>
    obtain ⟨body, valid, done⟩ := bind_eq_ok (Option.some.inj saved)
    obtain ⟨kept, replaced, _⟩ := bind_eq_ok done
    obtain ⟨_, _, valid⟩ := bind_eq_ok (mapError_eq_ok valid)
    obtain ⟨users, ran, valid⟩ := bind_eq_ok valid
    obtain ⟨rules, looped, valid⟩ := bind_eq_ok valid
    cases valid
    obtain ⟨users, sentUsers, rfl⟩ := map_eq_ok ran
    obtain ⟨each, checkedUsers, unique⟩ := bind_eq_ok sentUsers
    obtain ⟨rules, sentRules, rfl⟩ := map_eq_ok looped
    have together : replaceUsers hashApr1 userIds list.authUsers each = .ok kept := by
      rw [replaceUsers, unique]
      exact replaced
    rw [apiUsers_of_checked checkedUsers] at together
    have known := replaceUsers_apiUsers_iff.mp ⟨kept, together⟩
    refine ⟨unflagged, trim_stored_name checked unflagged known, fun r member => ?_⟩
    have sent : (⟨normalizeAddress r.address, r.directive⟩ : AccessListClientCreate) ∈
        clientPayload (openedForm list) := by
      rw [clientPayload, submittableClients_opened, List.map_map]
      exact List.mem_map_of_mem (f := fun c : AccessListClient =>
        (⟨normalizeAddress c.address, c.directive⟩ : AccessListClientCreate)) member
    obtain ⟨stored, done⟩ := ok_of_mapM_ok sentRules _ sent
    obtain ⟨given, short, done⟩ := bind_eq_ok done
    obtain ⟨form, accepted, _⟩ := bind_eq_ok done
    rw [(shortText_ok_iff.mp short).1] at accepted
    exact ⟨form, accepted⟩

/-! ### What a save of the opened form leaves -/

/-- The same users with the same hashes, the same rules in the order they are rendered in, the
same flags. -/
structure SameContent (before after : AccessList) : Prop where
  users : after.authUsers = before.authUsers
  rules : (accessListSpec after).clientRules = (accessListSpec before).clientRules
  satisfyAny : after.satisfyAny = before.satisfyAny
  passAuth : after.passAuth = before.passAuth

/-- No rule's address loses anything to trimming, and the rules are read in the order they are
rendered in. -/
structure RulesKept (list : AccessList) : Prop where
  untrimmed : ∀ r ∈ list.clientRules, trim r.address = r.address
  ordered : (accessListSpec list).clientRules = list.clientRules.map fun c =>
    { directive := c.directive, address := c.address }

theorem savedAddress_kept {raw address : String}
    (stored : validateAddress addressLibrary raw = .ok address) (kept : trim address = address) :
    savedAddress address = address := by
  rw [savedAddress, normalizeAddress_stored stored kept, validateAddress_again stored]
  rfl

/-- The rules that are stored come back as they were exactly if none was changed on the way
and none moved. -/
theorem rulesKept_iff (checked : list.Checked) (goes : GoesThrough list) :
    (list.clientRules.map fun r =>
      (⟨r.directive, savedAddress r.address⟩ : ClientRuleSpec)) =
        (accessListSpec list).clientRules ↔ RulesKept list := by
  have same : ∀ r ∈ list.clientRules, trim r.address = r.address →
      savedAddress r.address = r.address := by
    intro r member kept
    obtain ⟨raw, stored⟩ := (checked.addresses r member).2
    exact savedAddress_kept stored kept
  have shorter : ∀ r ∈ list.clientRules, trim r.address ≠ r.address →
      (savedAddress r.address).length < r.address.length := by
    intro r member changed
    obtain ⟨raw, stored⟩ := (checked.addresses r member).2
    exact trimmed_shorter stored changed (goes.saved r member)
  constructor
  · intro equal
    -- a rule that is cut leaves fewer characters in all
    have untrimmed : ∀ r ∈ list.clientRules, trim r.address = r.address := by
      by_contra cut
      push Not at cut
      obtain ⟨r, member, changed⟩ := cut
      have fewer : (list.clientRules.map fun r => (savedAddress r.address).length).sum <
          (list.clientRules.map fun r => r.address.length).sum := by
        refine List.sum_lt_sum _ _ (fun r member => ?_) ⟨r, member, shorter r member changed⟩
        by_cases kept : trim r.address = r.address
        · rw [same r member kept]
        · exact Nat.le_of_lt (shorter r member kept)
      have total := congrArg (fun rules : List ClientRuleSpec =>
        (rules.map fun c => c.address.length).sum) equal
      have perm := ((sortedBy_perm (·.id) list.clientRules).map fun r => r.address.length).sum_eq
      simp only [accessListSpec, List.map_map, Function.comp_def] at total
      omega
    refine ⟨untrimmed, equal.symm.trans (List.map_congr_left fun r member => ?_)⟩
    rw [same r member (untrimmed r member)]
  · rintro ⟨untrimmed, ordered⟩
    rw [ordered]
    refine List.map_congr_left fun r member => ?_
    rw [same r member (untrimmed r member)]

/-- Saving the opened form changes nothing exactly if the rules stand it, where the save goes
through at all. -/
theorem untouched_iff (checked : list.Checked) :
    (∀ after, handleSubmit hashApr1 userIds ruleIds list (openedForm list) = some (.ok after) →
      SameContent list after) ↔ (GoesThrough list → RulesKept list) := by
  have sent : GoesThrough list → handleSubmit hashApr1 userIds ruleIds list (openedForm list) =
      some (.ok { list with
        name := trim list.name
        clientRules := ruleIds.number (fun id c =>
          { id, address := c.address, directive := c.directive }) (savedRules list) }) := by
    intro goes
    rw [handleSubmit, goes.unflagged]
    exact congrArg some (goes.applied checked)
  have rendered : ∀ name, (accessListSpec { list with
        name
        clientRules := ruleIds.number (fun id c =>
          { id, address := c.address, directive := c.directive }) (savedRules list) }).clientRules =
      list.clientRules.map fun r => (⟨r.directive, savedAddress r.address⟩ : ClientRuleSpec) := by
    intro name
    have printed : (savedRules list).map (fun c => (⟨c.directive, c.address⟩ : ClientRuleSpec)) =
        list.clientRules.map fun r => ⟨r.directive, savedAddress r.address⟩ := by
      rw [savedRules, List.map_map, Function.comp_def]
    simp only [accessListSpec]
    rw [sortedBy_number _ _ fun _ _ => rfl, ← printed]
    exact Sequence.map_number fun _ _ => rfl
  constructor
  · intro unchanged goes
    have rules := (unchanged _ (sent goes)).rules
    rw [rendered] at rules
    exact (rulesKept_iff checked goes).mp rules
  · intro kept after saved
    have goes := goesThrough_of_saved checked saved
    rw [sent goes] at saved
    cases saved
    exact ⟨rfl, (rendered _).trans ((rulesKept_iff checked goes).mpr (kept goes)), rfl, rfl⟩

end Saving

/-! ### The form against the API -/

/-- A list left by a request is the one that `update_access_list` commits, and what the service
raises it raises. -/
theorem updateAccessList_applied {hashApr1 : AuthUserIn → String} {userIds ruleIds : Sequence}
    {db : Database} {i : Id} {list : AccessList} (found : db.accessList? i = some list)
    {raw body : AccessListUpdate} (valid : raw.validated addressLibrary = .ok body) :
    (∀ after, raw.applied hashApr1 userIds ruleIds list = .ok after → ∃ f, f list = after ∧
      updateAccessList hashApr1 db i (body.changes userIds ruleIds) =
        commitOr (db.changeAccessList i f) (body.changes userIds ruleIds).notNull
          .duplicateUsername) ∧
    ∀ e, raw.applied hashApr1 userIds ruleIds list = .error (.service e) →
      updateAccessList hashApr1 db i (body.changes userIds ruleIds) = .error e := by
  simp only [AccessListUpdate.applied, valid, updateAccessList, found, orRaise, Except.mapError,
    bind, Except.bind]
  cases updatedAuthUsers hashApr1 list (body.changes userIds ruleIds) with
  | error error =>
    constructor
    · intro after done
      cases done
    · intro e raised
      cases raised
      rfl
  | ok kept =>
    constructor
    · intro after done
      cases done
      exact ⟨_, rfl, rfl⟩
    · intro e raised
      cases raised

/-- A form and the API agree: the users of a form without a problem are accepted, and saving
the form of the list as it was opened leaves the list as it was. -/
structure FormAgrees (hashApr1 : AuthUserIn → String) (userIds ruleIds : Sequence)
    (list : AccessList) (form : AccessListFormState) : Prop where
  accepted : UsersAccepted hashApr1 userIds list form
  untouched : ∀ after, handleSubmit hashApr1 userIds ruleIds list (openedForm list) =
    some (.ok after) → SameContent list after

/-- What the two sides take for the same is the same. -/
structure InStep (list : AccessList) (form : AccessListFormState) : Prop where
  names : validateAccessListForm form = none → UsersPass form → NamesKnown list form
  rules : GoesThrough list → RulesKept list

/-- The form of a stored list, after any edits. -/
theorem formAgrees_iff (hashApr1 : AuthUserIn → String) (userIds ruleIds : Sequence)
    {list : AccessList} (checked : list.Checked) (edits : List FormEdit) :
    FormAgrees hashApr1 userIds ruleIds list (edited list edits) ↔
      InStep list (edited list edits) := by
  constructor
  · rintro ⟨accepted, untouched⟩
    exact ⟨usersAccepted_iff.mp accepted, (untouched_iff checked).mp untouched⟩
  · rintro ⟨names, rules⟩
    exact ⟨usersAccepted_iff.mpr names, (untouched_iff checked).mpr rules⟩

/-- Two users and a rule. -/
def staffList : AccessList where
  id := 3
  name := "staff"
  satisfyAny := true
  authUsers := [
    { id := 11, username := "alice", passwordHash := "$apr1$salt$first" },
    { id := 12, username := "bob", passwordHash := "$apr1$salt$second" }]
  clientRules := [{ id := 21, address := "10.0.0.0/8", directive := .allow }]

theorem staffList_checked : staffList.Checked where
  name := by decide +kernel
  usernames := by
    intro u member
    obtain rfl | rfl : u = _ ∨ u = _ := by simpa [staffList] using member
    · exact ⟨by decide +kernel, "alice", by decide +kernel⟩
    · exact ⟨by decide +kernel, "bob", by decide +kernel⟩
  distinct := by decide +kernel
  addresses := by
    intro r member
    obtain rfl : r = _ := by simpa [staffList] using member
    exact ⟨by decide +kernel, "10.0.0.0/8", by decide +kernel⟩

/-- Two stored names that trade places are both still stored. -/
theorem formAgrees_swapped :
    FormAgrees (saltedHash zeroMd5 fun _ => zeroDraws) (countingFrom 13) (countingFrom 22) staffList
      (edited staffList [.username 0 "bob", .username 1 "alice"]) := by
  refine (formAgrees_iff _ _ _ staffList_checked _).mpr ⟨fun _ _ => ⟨by decide +kernel, ?_⟩,
    fun _ => ⟨by decide +kernel, by decide +kernel⟩⟩
  decide +kernel

/-- A stored user who is renamed with the password left as it is: the form has no problem with
that, and the request is refused. -/
theorem renamed_user_refused :
    validateAccessListForm (edited staffList [.username 1 "carol"]) = none ∧
      handleSubmit (saltedHash zeroMd5 fun _ => zeroDraws) (countingFrom 13) (countingFrom 22)
          staffList (edited staffList [.username 1 "carol"]) =
        some (.error (.service (.missingPassword "carol"))) ∧
      ¬ FormAgrees (saltedHash zeroMd5 fun _ => zeroDraws) (countingFrom 13) (countingFrom 22)
        staffList (edited staffList [.username 1 "carol"]) := by
  have unflagged : validateAccessListForm (edited staffList [.username 1 "carol"]) = none := by
    decide +kernel
  refine ⟨unflagged, by decide +kernel, fun agrees => ?_⟩
  obtain ⟨rows, accepted⟩ := agrees.accepted unflagged [⟨"alice", none⟩, ⟨"carol", none⟩]
    (by decide +kernel)
  have refused : replaceUsers (saltedHash zeroMd5 fun _ => zeroDraws) (countingFrom 13)
      staffList.authUsers [⟨"alice", none⟩, ⟨"carol", none⟩] =
        .error (.service (.missingPassword "carol")) := by decide +kernel
  rw [refused] at accepted
  cases accepted

/-- While no stored user is renamed, the names are known: they are then the stored ones, and
those of new users come with a password. -/
theorem namesKnown_of_unrenamed {list : AccessList} {form : AccessListFormState}
    (reached : Unrenamed list form) (unflagged : validateAccessListForm form = none)
    (stored : ∀ u ∈ list.authUsers, trim u.username = u.username)
    (alike : ∀ row ∈ submittableUsers form, apiName row = trim row.username) :
    NamesKnown list form := by
  obtain ⟨filled, distinct, _⟩ := usersProblem_eq_none_iff.mp
    (validateAccessListForm_eq_none_iff.mp unflagged).2.1
  constructor
  · rwa [List.map_congr_left alike]
  · intro row member silent
    have known : row.id ≠ none := fun new => (filled row member).2 ⟨new, silent⟩
    have inside := (List.mem_filter.mp member).1
    have named := keepsNames_of_unrenamed reached row inside known
    obtain ⟨u, listed, same⟩ := List.mem_map.mp named
    rw [alike row member, ← same, stored u listed, same]
    exact named

end MegooPM
