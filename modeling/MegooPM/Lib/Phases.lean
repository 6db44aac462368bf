import MegooPM.Lib.Locations

/-!
# The phases of a request

A request passes through the rewrite directives of the server's own level, the choice of a
location, the rewrite directives of that location, the access rules in force there, and then
reaches what the location holds. A status that ends a phase is answered with the error page
in force: that is a request of its own, inside the server, through all the phases again,
without the query but with the line the client sent. A second status is answered bare.
Only the conditions and the `return` of the rewrite directives are read: no condition reads
a variable that another directive sets.
-/
namespace MegooPM.Lib

open Node

/-! ### Requests -/

/-- A path of a server begins with a slash. -/
structure Path where
  text : String
  rooted : text.toList.head? = some '/'
  deriving DecidableEq

def Path.of? (text : String) : Option Path :=
  if rooted : text.toList.head? = some '/' then some ⟨text, rooted⟩ else none

theorem Path.of_text (path : Path) : Path.of? path.text = some path := by
  rw [Path.of?, dif_pos path.rooted]

structure HttpRequest where
  path : Path
  query : String
  /-- What the client asked for: `$request_uri`. -/
  line : String
  internal : Bool := false

/-- The request for an error page. -/
def HttpRequest.redirect (r : HttpRequest) (path : Path) : HttpRequest :=
  { r with path, query := "", internal := true }

/-- What the server sees of a visitor. -/
structure Visitor where
  /-- The length of the prefix, if the address is inside the network. -/
  within : String → Option Nat
  /-- The password file knows the user and the password that were sent. -/
  knows : String → Bool

/-- Regular expressions, and texts in which variables stand. -/
structure Engine where
  finds (caseless : Bool) (pattern text : String) : Bool
  expands (r : HttpRequest) (text : String) : String
  plain : ∀ r text, '$' ∉ text.toList → expands r text = text

/-- A server block with the `geo` blocks around it. -/
structure Server where
  geos : List (List String × List Node)
  level : List Node

/-! ### Variables -/

/-- The entries of a `geo` block that name no network. -/
def geoKeywords : List String := ["default", "delete", "include", "proxy"]

def geoEntries : List Node → List (String × String)
  | .directive _ [network, value] :: rest => (network, value) :: geoEntries rest
  | _ :: rest => geoEntries rest
  | [] => []

/-- The entry of the smallest network around the visitor, the later one of two alike. -/
def closest (v : Visitor) (best : Option (Nat × String)) :
    List (String × String) → Option (Nat × String)
  | [] => best
  | (network, value) :: rest =>
    if network ∈ geoKeywords then closest v best rest
    else
      match v.within network with
      | none => closest v best rest
      | some length =>
        closest v (if length < (best.elim 0 (·.1)) then best else some (length, value)) rest

def geoValue (v : Visitor) (body : List Node) : String :=
  match closest v none (geoEntries body) with
  | some best => best.2
  | none => ((geoEntries body).lookup "default").getD ""

def Server.value (s : Server) (v : Visitor) (r : HttpRequest) (name : String) : String :=
  if name = "$request_uri" then r.line
  else if name = "$query_string" then r.query
  else
    match s.geos.find? fun geo => geo.1 = [name] with
    | some geo => geoValue v geo.2
    | none => ""

/-! ### Rewriting -/

/-- A word without the parenthesis in front of it. -/
def unopened (word : String) : String :=
  String.ofList word.toList.tail

/-- A word without the parenthesis behind it. -/
def unclosed (word : String) : String :=
  String.ofList word.toList.dropLast

/-- The conditions `($variable)` and `($variable ~ pattern)`. -/
def Engine.holds (e : Engine) (value : String → String) : List String → Bool
  | [name] => value (unopened (unclosed name)) ≠ "" && value (unopened (unclosed name)) ≠ "0"
  | [name, operator, pattern] =>
    (operator = "~" || operator = "~*") &&
      e.finds (operator = "~*") (String.ofList (stored (unclosed pattern).toList))
        (value (unopened name))
  | _ => false

/-- The status the rewrite directives of a level end with. -/
def rewritten (holds : List String → Bool) : List Node → Option String
  | .directive _ (word :: args) :: rest =>
    if word = "return" then args.head?.or (rewritten holds rest) else rewritten holds rest
  | .block _ (word :: args) body _ :: rest =>
    if word = "if" ∧ holds args = true then
      ((own "return" body).head?.bind List.head?).or (rewritten holds rest)
    else rewritten holds rest
  | _ :: rest => rewritten holds rest
  | [] => none

/-! ### Choosing a location -/

/-- Its name stands in the tree of names. -/
def Location.isStatic (l : Location) : Bool :=
  l.kind.isExact?.isSome

/-- It is for this path alone. -/
def Location.isExactly (path : String) (l : Location) : Bool :=
  l.kind = .exact ∧ l.name = path

/-- A name that ends in a slash and is handed on: the path without the slash is sent there. -/
def Location.completes (l : Location) (path : String) : Bool :=
  l.isStatic && own "proxy_pass" l.body ≠ [] && path.toList ++ ['/'] = l.name.toList

def Location.begins (l : Location) (path : String) : Bool :=
  match l.kind with
  | .inclusive _ => l.name.toList.isPrefixOf path.toList
  | _ => false

def Location.isFinal (l : Location) : Bool :=
  match l.kind with
  | .inclusive final => final
  | _ => false

/-- The inclusive location with the longest name the path begins with. -/
def longest (path : String) : List Location → Option Location
  | [] => none
  | l :: rest =>
    match longest path rest with
    | none => if l.begins path then some l else none
    | some best =>
      if l.begins path ∧ best.name.length ≤ l.name.length then some l else some best

def Engine.matching (e : Engine) (path : String) (l : Location) : Bool :=
  match l.kind with
  | .regex caseless => e.finds caseless l.name path
  | _ => false

inductive Choice where
  | outside
  /-- The path is sent to its name with a slash. -/
  | completed (l : Location)
  | found (l : Location)

/-- The location a path is completed for, unless a name is the path itself. -/
def completion (path : String) (ls : List Location) : Option Location :=
  if ls.any fun l => l.isStatic && l.name = path then none
  else ls.find? fun l => l.completes path

/-- An exact name, then a path to be completed, then the longest name, unless a regular
expression is found in the path and the name does not forbid to look. -/
def Engine.choose (e : Engine) (ls : List Location) (path : String) : Choice :=
  match ls.find? (Location.isExactly path) with
  | some l => .found l
  | none =>
    match completion path ls with
    | some l => .completed l
    | none =>
      match longest path ls with
      | none => ((ls.find? (e.matching path)).map .found).getD .outside
      | some best =>
        if best.isFinal then .found best
        else .found ((ls.find? (e.matching path)).getD best)

/-! ### Access -/

/-- The `allow` and `deny` of a level, in order. -/
def accessRules : List Node → List (List String)
  | .directive _ (word :: args) :: rest =>
    if word = "allow" ∨ word = "deny" then (word :: args) :: accessRules rest
    else accessRules rest
  | _ :: rest => accessRules rest
  | [] => []

/-- What decides about access somewhere. -/
structure Access where
  rules : List (List String)
  realm : List (List String)
  users : List (List String)
  satisfy : List (List String)
  deriving DecidableEq

/-- What a level says itself. -/
def ownAccess (level : List Node) : Access :=
  ⟨accessRules level, own "auth_basic" level, own "auth_basic_user_file" level,
    own "satisfy" level⟩

/-- Each of the four is inherited by itself. -/
def Access.inside (outer inner : Access) : Access where
  rules := if inner.rules = [] then outer.rules else inner.rules
  realm := if inner.realm = [] then outer.realm else inner.realm
  users := if inner.users = [] then outer.users else inner.users
  satisfy := if inner.satisfy = [] then outer.satisfy else inner.satisfy

theorem Access.inside_silent (outer : Access) : outer.inside ⟨[], [], [], []⟩ = outer := by
  cases outer
  rfl

inductive Verdict where
  | granted | denied | silent
  deriving DecidableEq

/-- The first rule the address meets decides. -/
def Visitor.byAddress (v : Visitor) : List (List String) → Verdict
  | [kind, address] :: rest =>
    if address = "all" ∨ (v.within address).isSome = true then
      if kind = "allow" then .granted else .denied
    else v.byAddress rest
  | _ :: rest => v.byAddress rest
  | [] => .silent

/-- The realm `off` asks for no password. -/
def Access.byPassword (a : Access) (e : Engine) (v : Visitor) (r : HttpRequest) : Verdict :=
  match a.realm.head?.bind List.head?, a.users.head?.bind List.head? with
  | some realm, some file =>
    if e.expands r (String.ofList (stored realm.toList)) = "off" then .silent
    else if v.knows file then .granted
    else .denied
  | _, _ => .silent

/-- The status the access phase ends with. The addresses are looked at first; where either
check is enough, a missing password is what counts. -/
def Access.refusal (a : Access) (e : Engine) (v : Visitor) (r : HttpRequest) : Option String :=
  let address := v.byAddress a.rules
  let password := a.byPassword e v r
  if a.satisfy = [["any"]] then
    if address = .granted ∨ password = .granted then none
    else if password = .denied then some "401"
    else if address = .denied then some "403"
    else none
  else if address = .denied then some "403"
  else if password = .denied then some "401"
  else none

/-! ### Passing through -/

/-- Where a request stops, with the items of its location. -/
inductive Pass where
  | ended (status : String) (body : List Node)
  | refused (status : String) (body : List Node)
  | reached (body : List Node)

def Pass.refusal? : Pass → Option String
  | .refused status _ => some status
  | _ => none

theorem Pass.eq_refused {p : Pass} {status : String} (known : p.refusal? = some status) :
    ∃ body, p = .refused status body := by
  cases p with
  | refused other body =>
    cases known
    exact ⟨body, rfl⟩
  | _ => cases known

def Server.condition (s : Server) (e : Engine) (v : Visitor) (r : HttpRequest) :
    List String → Bool :=
  e.holds (s.value v r)

/-- The phases behind the choice of a location. -/
def Server.enter (s : Server) (e : Engine) (v : Visitor) (r : HttpRequest) (body : List Node) : Pass :=
  match rewritten (s.condition e v r) body with
  | some status => .ended status body
  | none =>
    match ((ownAccess s.level).inside (ownAccess body)).refusal e v r with
    | some status => .refused status body
    | none => .reached body

/-- An internal location does not exist for a client. -/
def isHidden (r : HttpRequest) (body : List Node) : Bool :=
  own "internal" body ≠ [] && !r.internal

def Server.pass (s : Server) (e : Engine) (v : Visitor) (r : HttpRequest) : Pass :=
  match rewritten (s.condition e v r) s.level with
  | some status => .ended status []
  | none =>
    match e.choose (locations s.level) r.path.text with
    | .outside => s.enter e v r []
    | .completed l => .ended (if isHidden r l.body then "404" else "301") l.body
    | .found l => if isHidden r l.body then .ended "404" l.body else s.enter e v r l.body

/-! ### Answers -/

/-- The page of a status: the first line that lists it. -/
def errorPage (status : String) : List (List String) → Option String
  | [] => none
  | args :: rest => if status ∈ args.dropLast then args.getLast? else errorPage status rest

inductive Answer where
  /-- The server's own page. -/
  | bare (status : String)
  | file (status path : String)
  /-- Left to what the location holds. -/
  | handled (status : String) (body : List Node)

def Answer.bareStatus? : Answer → Option String
  | .bare status => some status
  | _ => none

theorem Answer.eq_bare {a : Answer} {status : String} (known : a.bareStatus? = some status) :
    a = .bare status := by
  cases a with
  | bare other =>
    cases known
    rfl
  | _ => cases known

def handlers : List String := ["proxy_pass", "alias", "try_files"]

def Server.serve (s : Server) (status : String) (body : List Node) (path : Path) : Answer :=
  match if handlers.all fun name => own name body = [] then
      (inForce "root" (own "root" s.level) body).head?.bind List.head? else none with
  | some root => .file status (root ++ path.text)
  | none => .handled status body

/-- What becomes of a status that ended a phase. -/
def Server.fail (s : Server) (e : Engine) (v : Visitor) (r : HttpRequest) (status : String)
    (body : List Node) : Answer :=
  match (errorPage status (inForce "error_page" (own "error_page" s.level) body)).bind
      Path.of? with
  | none => .bare status
  | some path =>
    match s.pass e v (r.redirect path) with
    | .reached body => s.serve status body path
    | .ended second _ => .bare second
    | .refused second _ => .bare second

def Server.answer (s : Server) (e : Engine) (v : Visitor) (r : HttpRequest) : Answer :=
  match s.pass e v r with
  | .reached body => s.serve "200" body r.path
  | .ended status body => s.fail e v r status body
  | .refused status body => s.fail e v r status body

/-! ### What a level says about the phases -/

def phaseWords : List String :=
  ["return", "allow", "deny", "auth_basic", "auth_basic_user_file", "satisfy", "error_page"]

def phased : Node → Bool
  | .directive _ (word :: _) => word ∈ phaseWords
  | .block _ (word :: _) _ _ => word = "if"
  | _ => false

/-- The items of a level that the phases read. -/
def phaseItems (level : List Node) : List Node :=
  level.filter phased

@[simp] theorem phaseItems_nil : phaseItems [] = [] := rfl

@[simp] theorem phaseItems_append (left right : List Node) :
    phaseItems (left ++ right) = phaseItems left ++ phaseItems right :=
  List.filter_append left right

section Items

variable (lead text word close : String) (args : List String) (body rest : List Node)

@[simp] theorem phaseItems_comment : phaseItems (.comment lead text :: rest) = phaseItems rest :=
  rfl

@[simp] theorem phaseItems_directive : phaseItems (.directive lead (word :: args) :: rest) =
    if word ∈ phaseWords then .directive lead (word :: args) :: phaseItems rest
    else phaseItems rest := by
  simp only [phaseItems, List.filter_cons, phased, decide_eq_true_eq]

@[simp] theorem phaseItems_block : phaseItems (.block lead (word :: args) body close :: rest) =
    if word = "if" then .block lead (word :: args) body close :: phaseItems rest
    else phaseItems rest := by
  simp only [phaseItems, List.filter_cons, phased, decide_eq_true_eq]

end Items

/-- What is read off item by item, and passes over the others, is read off these items. -/
theorem read_phased {β : Type} {read : List Node → β}
    (passes : ∀ n rest, phased n = false → read (n :: rest) = read rest)
    (goesOn : ∀ n {left right}, read left = read right → read (n :: left) = read (n :: right))
    (level : List Node) : read (phaseItems level) = read level := by
  rw [phaseItems]
  induction level with
  | nil => rfl
  | cons n rest ih =>
    cases kept : phased n with
    | true =>
      rw [List.filter_cons_of_pos kept]
      exact goesOn n ih
    | false =>
      rw [List.filter_cons_of_neg (by simp [kept]), ih, passes n rest kept]

/-- A directive that is passed over is called by none of the names. -/
private theorem word_ne {word name lead : String} {args : List String}
    (kept : phased (.directive lead (word :: args)) = false) (known : name ∈ phaseWords) :
    word ≠ name := by
  rintro rfl
  simp [phased, known] at kept

theorem own_phased {name : String} (known : name ∈ phaseWords) (level : List Node) :
    own name (phaseItems level) = own name level := by
  refine read_phased (fun n rest kept => ?_) (fun n left right same => ?_) level
  · cases n with
    | directive lead words =>
      cases words with
      | nil => rfl
      | cons word args => rw [own_directive, if_neg (word_ne kept known)]
    | _ => rfl
  · cases n with
    | directive lead words =>
      cases words with
      | nil => exact same
      | cons word args => rw [own_directive, own_directive, same]
    | _ => exact same

theorem rewritten_phased (holds : List String → Bool) (level : List Node) :
    rewritten holds (phaseItems level) = rewritten holds level := by
  refine read_phased (fun n rest kept => ?_) (fun n left right same => ?_) level
  · cases n with
    | directive lead words =>
      cases words with
      | nil => rfl
      | cons word args => rw [rewritten, if_neg (word_ne kept (by decide))]
    | block lead words body close =>
      cases words with
      | nil => rfl
      | cons word args =>
        have other : word ≠ "if" := by simpa [phased] using kept
        rw [rewritten, if_neg fun both => other both.1]
    | _ => rfl
  · cases n with
    | directive lead words =>
      cases words with
      | nil => exact same
      | cons word args => rw [rewritten, rewritten, same]
    | block lead words body close =>
      cases words with
      | nil => exact same
      | cons word args => rw [rewritten, rewritten, same]
    | _ => exact same

theorem accessRules_phased (level : List Node) :
    accessRules (phaseItems level) = accessRules level := by
  refine read_phased (fun n rest kept => ?_) (fun n left right same => ?_) level
  · cases n with
    | directive lead words =>
      cases words with
      | nil => rfl
      | cons word args =>
        have other : ¬(word = "allow" ∨ word = "deny") := by
          rintro (same | same)
          · exact word_ne kept (by decide) same
          · exact word_ne kept (by decide) same
        rw [accessRules, if_neg other]
    | _ => rfl
  · cases n with
    | directive lead words =>
      cases words with
      | nil => exact same
      | cons word args => rw [accessRules, accessRules, same]
    | _ => exact same

theorem ownAccess_phased (level : List Node) :
    ownAccess (phaseItems level) = ownAccess level := by
  simp only [ownAccess, accessRules_phased]
  rw [own_phased (by decide), own_phased (by decide), own_phased (by decide)]

/-! ### Rules of the phases -/

theorem rewritten_append (holds : List String → Bool) (left right : List Node) :
    rewritten holds (left ++ right) = (rewritten holds left).or (rewritten holds right) := by
  induction left with
  | nil => rfl
  | cons n rest ih =>
    rw [List.cons_append]
    cases n with
    | directive lead words =>
      cases words with
      | nil => exact ih
      | cons word args =>
        rw [rewritten, rewritten, ih]
        split
        · rw [Option.or_assoc]
        · rfl
    | block lead words body close =>
      cases words with
      | nil => exact ih
      | cons word args =>
        rw [rewritten, rewritten, ih]
        split
        · rw [Option.or_assoc]
        · rfl
    | _ => exact ih

theorem accessRules_append (left right : List Node) :
    accessRules (left ++ right) = accessRules left ++ accessRules right := by
  induction left with
  | nil => rfl
  | cons n rest ih =>
    rw [List.cons_append]
    cases n with
    | directive lead words =>
      cases words with
      | nil => exact ih
      | cons word args =>
        rw [accessRules, accessRules, ih]
        split
        · rfl
        · rfl
    | _ => exact ih

theorem ownAccess_append_left {left : List Node} (silent : ownAccess left = ⟨[], [], [], []⟩)
    (right : List Node) : ownAccess (left ++ right) = ownAccess right := by
  simp only [ownAccess, Access.mk.injEq] at silent
  obtain ⟨rules, realm, users, satisfy⟩ := silent
  simp only [ownAccess, accessRules_append, own_append, rules, realm, users, satisfy,
    List.nil_append]

theorem ownAccess_append_right {right : List Node} (silent : ownAccess right = ⟨[], [], [], []⟩)
    (left : List Node) : ownAccess (left ++ right) = ownAccess left := by
  simp only [ownAccess, Access.mk.injEq] at silent
  obtain ⟨rules, realm, users, satisfy⟩ := silent
  simp only [ownAccess, accessRules_append, own_append, rules, realm, users, satisfy,
    List.append_nil]

/-- What no phase reads says nothing. -/
theorem silent_of_phaseItems {level : List Node} (none_ : phaseItems level = [])
    (holds : List String → Bool) :
    rewritten holds level = none ∧ ownAccess level = ⟨[], [], [], []⟩ ∧
      own "error_page" level = [] := by
  rw [← rewritten_phased, ← ownAccess_phased, ← @own_phased "error_page" (by decide),
    none_]
  exact ⟨rfl, rfl, rfl⟩

/-- Outside every network the entries change nothing. -/
theorem closest_outside {v : Visitor} {entries : List (String × String)}
    (outside : ∀ entry ∈ entries, entry.1 ∉ geoKeywords → v.within entry.1 = none)
    (best : Option (Nat × String)) : closest v best entries = best := by
  induction entries with
  | nil => rfl
  | cons entry rest ih =>
    have tail := ih fun other member => outside other (List.mem_cons_of_mem _ member)
    by_cases keyword : entry.1 ∈ geoKeywords
    · rw [closest, if_pos keyword, tail]
    · rw [closest, if_neg keyword, outside entry (List.mem_cons_self ..) keyword]
      exact tail

/-! ### Choosing -/

section Choose

variable {e : Engine} {ls : List Location} {path : String}

theorem longest_spec {l : Location} (found : longest path ls = some l) :
    l ∈ ls ∧ l.begins path = true := by
  induction ls with
  | nil => cases found
  | cons first rest ih =>
    rw [longest] at found
    cases behind : longest path rest with
    | none =>
      rw [behind] at found
      dsimp only at found
      split at found
      next begins =>
        cases found
        exact ⟨List.mem_cons_self .., begins⟩
      · cases found
    | some best =>
      rw [behind] at found
      dsimp only at found
      split at found
      next begins =>
        cases found
        exact ⟨List.mem_cons_self .., begins.1⟩
      · cases found
        obtain ⟨member, begins⟩ := ih behind
        exact ⟨List.mem_cons_of_mem _ member, begins⟩

/-- Some name is the longest. -/
theorem longest_some {l : Location} (member : l ∈ ls) (begins : l.begins path = true) :
    ∃ best, longest path ls = some best := by
  induction ls with
  | nil => cases member
  | cons first rest ih =>
    rw [longest]
    cases behind : longest path rest with
    | none =>
      rcases List.mem_cons.mp member with rfl | later
      · exact ⟨l, if_pos begins⟩
      · obtain ⟨best, found⟩ := ih later
        rw [behind] at found
        cases found
    | some best =>
      dsimp only
      split
      · exact ⟨_, rfl⟩
      · exact ⟨_, rfl⟩

/-- Among names that differ each is found by itself. -/
theorem find_exactly (distinct : (ls.map (·.name)).Nodup)
    (exact : ∀ l ∈ ls, l.kind = .exact) {l : Location} (member : l ∈ ls) (rest : List Location) :
    (ls ++ rest).find? (Location.isExactly l.name) = some l := by
  induction ls with
  | nil => cases member
  | cons first others ih =>
    rw [List.map_cons, List.nodup_cons] at distinct
    rcases List.mem_cons.mp member with rfl | later
    · rw [List.cons_append, List.find?_cons_of_pos]
      simp [Location.isExactly, exact l (List.mem_cons_self ..)]
    · have other : first.name ≠ l.name := by
        intro same
        exact distinct.1 (List.mem_map.mpr ⟨l, later, same.symm⟩)
      rw [List.cons_append, List.find?_cons_of_neg (by simp [Location.isExactly, other])]
      exact ih distinct.2 (fun l member => exact l (List.mem_cons_of_mem _ member)) later

theorem choose_exact {l : Location} (found : ls.find? (Location.isExactly path) = some l) :
    e.choose ls path = .found l := by
  rw [Engine.choose, found]

theorem completion_isSome_iff : (completion path ls).isSome = true ↔
    (∃ l ∈ ls, l.completes path = true) ∧ ∀ l ∈ ls, l.isStatic = true → l.name ≠ path := by
  rw [completion]
  split
  next taken =>
    obtain ⟨l, member, same⟩ := List.any_eq_true.mp taken
    simp only [Bool.and_eq_true, decide_eq_true_eq] at same
    exact iff_of_false (by simp) fun both => both.2 l member same.1 same.2
  next free =>
    rw [List.find?_isSome]
    refine ⟨fun some_ => ⟨some_, fun l member static same => free ?_⟩, fun both => both.1⟩
    exact List.any_eq_true.mpr ⟨l, member, by simp [static, same]⟩

/-- Without an exact name a path is completed, or it is found as soon as a name begins it. -/
theorem choose_inexact (none_ : ls.find? (Location.isExactly path) = none)
    (begun : ∃ l ∈ ls, l.begins path = true) :
    (∃ l, completion path ls = some l ∧ e.choose ls path = .completed l) ∨
    (completion path ls = none ∧ ∃ l ∈ ls, e.choose ls path = .found l ∧
      (l.begins path = true ∨ e.matching path l = true)) := by
  rw [Engine.choose, none_]
  dsimp only
  cases completed : completion path ls with
  | some l => exact Or.inl ⟨l, rfl, rfl⟩
  | none =>
    obtain ⟨l, member, begins⟩ := begun
    obtain ⟨best, found⟩ := longest_some member begins
    have spec := longest_spec found
    refine Or.inr ⟨rfl, ?_⟩
    rw [found]
    dsimp only
    split
    · exact ⟨best, spec.1, rfl, Or.inl spec.2⟩
    · cases matched : ls.find? (e.matching path) with
      | none => exact ⟨best, spec.1, rfl, Or.inl spec.2⟩
      | some l =>
        exact ⟨l, List.mem_of_find?_eq_some matched, rfl, Or.inr (List.find?_some matched)⟩

theorem choose_found_mem {l : Location} (chosen : e.choose ls path = .found l) : l ∈ ls := by
  rw [Engine.choose] at chosen
  split at chosen
  next found =>
    cases chosen
    exact List.mem_of_find?_eq_some found
  · split at chosen
    · cases chosen
    · split at chosen
      · cases matched : ls.find? (e.matching path) with
        | none =>
          rw [matched] at chosen
          cases chosen
        | some other =>
          rw [matched] at chosen
          cases chosen
          exact List.mem_of_find?_eq_some matched
      next best found =>
        split at chosen
        · cases chosen
          exact (longest_spec found).1
        · cases matched : ls.find? (e.matching path) with
          | none =>
            rw [matched] at chosen
            cases chosen
            exact (longest_spec found).1
          | some other =>
            rw [matched] at chosen
            cases chosen
            exact List.mem_of_find?_eq_some matched

end Choose

/-! ### Answering -/

section Answer

variable {s : Server} {e : Engine} {v : Visitor} {r : HttpRequest}

/-- Where nothing is said everyone comes in. -/
theorem refusal_silent : (⟨[], [], [], []⟩ : Access).refusal e v r = none := by
  simp [Access.refusal, Visitor.byAddress, Access.byPassword]

/-- Where everyone is allowed and no password is asked for everyone comes in. -/
theorem refusal_open (users satisfy : List (List String)) :
    (⟨[["allow", "all"]], [["off"]], users, satisfy⟩ : Access).refusal e v r = none := by
  have off : e.expands r (String.ofList (stored "off".toList)) = "off" := by
    rw [e.plain _ _ (by decide)]
    rfl
  have address : v.byAddress [["allow", "all"]] = .granted := by
    rw [Visitor.byAddress, if_pos (Or.inl rfl), if_pos rfl]
  have password : (⟨[["allow", "all"]], [["off"]], users, satisfy⟩ : Access).byPassword e v r =
      .silent := by
    rw [Access.byPassword]
    dsimp only [List.head?_cons, Option.bind_some]
    cases users.head?.bind List.head? with
    | none => rfl
    | some file => exact if_pos off
  rw [Access.refusal]
  simp [address, password]

/-- A realm without variables is the same for every request, and so is the refusal. -/
theorem refusal_unchanged {a : Access}
    (plain : ∀ realm, a.realm.head?.bind List.head? = some realm → '$' ∉ realm.toList)
    (r r' : HttpRequest) : a.refusal e v r = a.refusal e v r' := by
  have password : a.byPassword e v r = a.byPassword e v r' := by
    rw [Access.byPassword, Access.byPassword]
    cases named : a.realm.head?.bind List.head? with
    | none => rfl
    | some realm =>
      have absent : '$' ∉ (String.ofList (stored realm.toList)).toList := by
        rw [String.toList_ofList]
        intro sign
        rcases mem_stored sign with inside | blank
        · exact plain realm named inside
        · revert blank
          decide
      cases a.users.head?.bind List.head? with
      | none => rfl
      | some file =>
        dsimp only
        rw [e.plain r _ absent, e.plain r' _ absent]
  rw [Access.refusal, Access.refusal, password]

/-- The access phase ends with one of two statuses. -/
theorem refusal_status {a : Access} {status : String} (refused : a.refusal e v r = some status) :
    status = "401" ∨ status = "403" := by
  rw [Access.refusal] at refused
  repeat' split at refused
  all_goals cases refused
  all_goals first
    | exact Or.inl rfl
    | exact Or.inr rfl

/-- A request that is refused behind the choice of a location is refused by the rules in
force there. -/
theorem enter_refused {body refusedAt : List Node} {status : String}
    (passed : s.enter e v r body = .refused status refusedAt) :
    refusedAt = body ∧ rewritten (s.condition e v r) body = none ∧
      ((ownAccess s.level).inside (ownAccess body)).refusal e v r = some status := by
  rw [Server.enter] at passed
  split at passed
  · cases passed
  next goesOn =>
    split at passed
    next refused =>
      cases passed
      exact ⟨rfl, goesOn, refused⟩
    · cases passed

/-- A request is refused at a location of the level, or at the level itself. -/
theorem pass_refused {body : List Node} {status : String}
    (passed : s.pass e v r = .refused status body) :
    rewritten (s.condition e v r) s.level = none ∧
      (body = [] ∨ ∃ l ∈ locations s.level, body = l.body) ∧
      rewritten (s.condition e v r) body = none ∧
      ((ownAccess s.level).inside (ownAccess body)).refusal e v r = some status := by
  rw [Server.pass] at passed
  split at passed
  · cases passed
  next goesOn =>
    refine ⟨goesOn, ?_⟩
    split at passed
    · obtain ⟨rfl, none_, refused⟩ := enter_refused passed
      exact ⟨Or.inl rfl, none_, refused⟩
    · cases passed
    next l chosen =>
      split at passed
      · cases passed
      · obtain ⟨rfl, none_, refused⟩ := enter_refused passed
        exact ⟨Or.inr ⟨l, choose_found_mem chosen, rfl⟩, none_, refused⟩

/-- A file that is answered to a status keeps it. -/
theorem fail_file {status : String} {body : List Node} {shown path : String}
    (answered : s.fail e v r status body = .file shown path) : shown = status := by
  rw [Server.fail] at answered
  split at answered
  · cases answered
  · split at answered
    · rw [Server.serve] at answered
      split at answered
      · cases answered
        rfl
      · cases answered
    · cases answered
    · cases answered

end Answer

end MegooPM.Lib
