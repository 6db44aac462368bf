import MegooPM.Lib.FirstFit
import MegooPM.Lib.Replace
import Mathlib.Data.String.Basic
import Mathlib.Data.List.Infix
import Mathlib.Data.List.Pairwise

/-!
# Scrubbed provider errors

`scrub` of `dns_providers/lexicon_provider.py` replaces one secret after the other in what is left
of the message. To say what of the message is still there the characters carry their place in it;
what has been replaced is then a set of spans, taken by first fit among the occurrences of the
secrets.
-/
namespace MegooPM.Scrubbing

open Lib

/-- `***` -/
def mask : List Char := ['*', '*', '*']

/-- The value is replaced. -/
def isSecret (secret : String) : Bool :=
  4 ≤ secret.length

def scrub (message : String) (secrets : List String) : String :=
  secrets.foldl (fun message secret =>
    if isSecret secret then String.ofList (replaceAll id secret.toList mask message.toList)
    else message) message

/-! ### Places -/

/-- A character of a scrubbed message: one of the message, or an asterisk of a mask. -/
inductive Cell where
  | kept (place : Nat) (c : Char)
  | star
  deriving DecidableEq, Repr

def Cell.char : Cell → Char
  | .kept _ c => c
  | .star => '*'

def stars : List Cell := [.star, .star, .star]

/-- The characters of a text, from some place on. -/
def marked : Nat → List Char → List Cell
  | _, [] => []
  | i, c :: rest => .kept i c :: marked (i + 1) rest

/-- `scrub` on characters that carry their place. -/
def scrubCells (secrets : List String) (cells : List Cell) : List Cell :=
  secrets.foldl (fun cells secret =>
    if isSecret secret then replaceAll Cell.char secret.toList stars cells else cells) cells

@[simp] theorem map_marked (i : Nat) (text : List Char) : (marked i text).map Cell.char = text := by
  induction text generalizing i with
  | nil => rfl
  | cons c rest ih => rw [marked, List.map_cons, ih, Cell.char]

/-- The cells show the scrubbed message. -/
theorem map_scrubCells (secrets : List String) (cells : List Cell) :
    (scrubCells secrets cells).map Cell.char =
      (scrub (String.ofList (cells.map Cell.char)) secrets).toList := by
  induction secrets generalizing cells with
  | nil => exact String.toList_ofList.symm
  | cons secret secrets ih =>
    rw [scrubCells, List.foldl_cons, scrub, List.foldl_cons]
    split
    · have same := ih (replaceAll Cell.char secret.toList stars cells)
      rw [map_replaceAll] at same
      rw [String.toList_ofList]
      exact same
    · exact ih cells

/-- A scrubbed message is what its characters show, each with its place. -/
theorem scrub_toList (message : String) (secrets : List String) :
    (scrub message secrets).toList =
      (scrubCells secrets (marked 0 message.toList)).map Cell.char := by
  rw [map_scrubCells, map_marked, String.ofList_toList]

/-! ### Occurrences -/

/-- The occurrences of a text from some place on. -/
def occurrencesFrom (old text : List Char) (i : Nat) : List Span :=
  ((List.range' i (text.length - i)).filter fun p => old.isPrefixOf (text.drop p)).map fun p =>
    { start := p, length := old.length }

/-- Those of the secrets, in the order of the secrets and then of the places. -/
def occurrences (secrets : List String) (text : List Char) : List Span :=
  (secrets.filter isSecret).flatMap fun secret => occurrencesFrom secret.toList text 0

/-- No character of an occurrence of a secret is left. -/
def Hidden (message : String) (secrets : List String) : Prop :=
  ∀ secret ∈ secrets, 4 ≤ secret.length → ∀ p, secret.toList <+: message.toList.drop p →
    ∀ i, p ≤ i → i < p + secret.length → ∀ c,
      .kept i c ∉ scrubCells secrets (marked 0 message.toList)

/-- Each place of an occurrence is one of those that first fit takes. -/
def Covered (message : String) (secrets : List String) : Prop :=
  ∀ o ∈ occurrences secrets message.toList, ∀ i ∈ o.places,
    ∃ t ∈ firstFit [] (occurrences secrets message.toList), i ∈ t.places

instance (message : String) (secrets : List String) : Decidable (Covered message secrets) :=
  inferInstanceAs (Decidable (∀ o ∈ occurrences secrets message.toList, ∀ i ∈ o.places,
    ∃ t ∈ firstFit [] (occurrences secrets message.toList), i ∈ t.places))

/-- A text from some place on with spans masked; a mask stands where its span starts. -/
def shown (taken : List Span) : Nat → List Char → List Cell
  | _, [] => []
  | i, c :: rest =>
    (if taken.any (·.start = i) then stars
      else if taken.any (i ∈ ·.places) then []
      else [.kept i c]) ++ shown taken (i + 1) rest

/-- Somewhere the cells show the secret with an asterisk of a mask among its characters. -/
def completes (secret : String) (cells : List Cell) : Bool :=
  cells.tails.any fun tail =>
    secret.toList.isPrefixOf (tail.map Cell.char) && .star ∈ tail.take secret.toList.length

/-- No value of four characters is completed by an asterisk of a mask, once the spans of the
values before it are masked. -/
def PlainFrom (text : List Char) (taken : List Span) : List String → Prop
  | [] => True
  | secret :: secrets =>
    (isSecret secret = true → completes secret (shown taken 0 text) = false) ∧
      PlainFrom text (firstFit taken (occurrences [secret] text)) secrets

instance decidablePlainFrom (text : List Char) (taken : List Span) :
    (secrets : List String) → Decidable (PlainFrom text taken secrets)
  | [] => .isTrue trivial
  | secret :: secrets =>
    have := decidablePlainFrom text (firstFit taken (occurrences [secret] text)) secrets
    inferInstanceAs (Decidable ((isSecret secret = true →
      completes secret (shown taken 0 text) = false) ∧ _))

def Plain (message : String) (secrets : List String) : Prop :=
  PlainFrom message.toList [] secrets

instance (message : String) (secrets : List String) : Decidable (Plain message secrets) :=
  inferInstanceAs (Decidable (PlainFrom message.toList [] secrets))

section Occurrences

variable {old text : List Char} {taken : List Span} {i k : Nat}

theorem mem_occurrencesFrom (some_ : old ≠ []) {s : Span} : s ∈ occurrencesFrom old text i ↔
    i ≤ s.start ∧ old <+: text.drop s.start ∧ s.length = old.length := by
  simp only [occurrencesFrom, List.mem_map, List.mem_filter, List.mem_range'_1,
    List.isPrefixOf_iff_prefix]
  constructor
  · rintro ⟨p, ⟨⟨after, _⟩, here⟩, rfl⟩
    exact ⟨after, here, rfl⟩
  · rintro ⟨after, here, length⟩
    refine ⟨s.start, ⟨⟨after, ?_⟩, here⟩, by rw [← length]⟩
    -- what occurs is not empty, so the text goes on
    have fits := here.length_le
    have positive := List.length_pos_iff.mpr some_
    rw [List.length_drop] at fits
    omega

theorem occurrencesFrom_here (within : i < text.length) (here : old <+: text.drop i) :
    occurrencesFrom old text i =
      { start := i, length := old.length } :: occurrencesFrom old text (i + 1) := by
  have one : text.length - i = text.length - (i + 1) + 1 := by omega
  rw [occurrencesFrom, one, List.range'_succ, List.filter_cons,
    if_pos (List.isPrefixOf_iff_prefix.mpr here), List.map_cons]
  rfl

/-- The occurrences that are already overlapped can be left out. -/
theorem firstFit_skip (upto : i ≤ k) (within : k ≤ text.length)
    (full : ∀ p, i ≤ p → p < k → old <+: text.drop p →
      ∃ t ∈ taken, Span.overlaps { start := p, length := old.length } t = true) :
    firstFit taken (occurrencesFrom old text i) = firstFit taken (occurrencesFrom old text k) := by
  obtain ⟨m, rfl⟩ := Nat.exists_eq_add_of_le upto
  have total : text.length - i = m + (text.length - (i + m)) := by omega
  have front : firstFit taken (((List.range' i m).filter fun p =>
      old.isPrefixOf (text.drop p)).map fun p => { start := p, length := old.length }) = taken := by
    refine firstFit_overlapping fun s member => ?_
    obtain ⟨p, inside, rfl⟩ := List.mem_map.mp member
    obtain ⟨bounds, here⟩ := List.mem_filter.mp inside
    rw [List.mem_range'_1] at bounds
    exact full p bounds.1 bounds.2 (List.isPrefixOf_iff_prefix.mp here)
  rw [occurrencesFrom, total, ← List.range'_append_1, List.filter_append, List.map_append,
    firstFit_append, front]
  rfl

end Occurrences

/-! ### One secret -/

/-- The cells of a text behind some place, once the spans that were taken are masked. -/
inductive Masked (text : List Char) (taken : List Span) : Nat → List Cell → Prop
  | done : Masked text taken text.length []
  | keep {i : Nat} {c : Char} {rest : List Cell} (free : ∀ t ∈ taken, i ∉ t.places)
    (here : text[i]? = some c) (more : Masked text taken (i + 1) rest) :
    Masked text taken i (.kept i c :: rest)
  | mask {t : Span} {rest : List Cell} (member : t ∈ taken) (some_ : 0 < t.length)
    (more : Masked text taken (t.start + t.length) rest) :
    Masked text taken t.start (stars ++ rest)

section Masked

variable {old text : List Char} {taken before : List Span} {i : Nat} {cells : List Cell}

theorem Masked.within (masked : Masked text taken i cells) : i ≤ text.length := by
  induction masked with
  | done => exact Nat.le_refl _
  | keep _ here _ _ => exact (List.getElem?_eq_some_iff.mp here).1.le
  | mask _ _ _ ih => omega

/-- What is still there is what no span has taken. -/
theorem Masked.mem_kept (masked : Masked text taken i cells) {j : Nat} {c : Char} :
    .kept j c ∈ cells ↔ i ≤ j ∧ text[j]? = some c ∧ ∀ t ∈ taken, j ∉ t.places := by
  induction masked with
  | done =>
    refine ⟨fun member => (by cases member), fun ⟨beyond, here, _⟩ => ?_⟩
    exact absurd (List.getElem?_eq_some_iff.mp here).1 (Nat.not_lt.mpr beyond)
  | @keep i d rest free here _ ih =>
    rw [List.mem_cons, ih]
    constructor
    · rintro (same | ⟨later, there, apart⟩)
      · cases same
        exact ⟨Nat.le_refl _, here, free⟩
      · exact ⟨by omega, there, apart⟩
    · rintro ⟨from_, there, apart⟩
      rcases Nat.lt_or_ge i j with later | same
      · exact Or.inr ⟨later, there, apart⟩
      · have equal : j = i := by omega
        subst equal
        rw [here] at there
        cases there
        exact Or.inl rfl
  | @mask t rest member _ _ ih =>
    rw [List.mem_append, ih]
    constructor
    · rintro (none_ | ⟨later, there, apart⟩)
      · simp [stars] at none_
      · exact ⟨by omega, there, apart⟩
    · rintro ⟨from_, there, apart⟩
      refine Or.inr ⟨?_, there, apart⟩
      by_contra inside
      exact apart t member (Span.mem_places.mpr ⟨from_, by omega⟩)

theorem masked_marked (i : Nat) (front rest : List Char) (place : front.length = i) :
    Masked (front ++ rest) [] i (marked i rest) := by
  induction rest generalizing i front with
  | nil =>
    subst place
    rw [List.append_nil]
    exact .done
  | cons c rest ih =>
    have here : (front ++ c :: rest)[i]? = some c := by
      rw [List.getElem?_append_right (by omega), place, Nat.sub_self]
      rfl
    have more := ih (i + 1) (front ++ [c]) (by rw [List.length_append, place]; rfl)
    rw [List.append_assoc] at more
    exact .keep (fun t member => (by cases member)) here more

/-- No span has a place of the text's next characters. -/
def Free (taken : List Span) (i length : Nat) : Prop :=
  ∀ j, i ≤ j → j < i + length → ∀ t ∈ taken, j ∉ t.places

theorem drop_of_getElem? {c : Char} (here : text[i]? = some c) :
    text.drop i = c :: text.drop (i + 1) := by
  obtain ⟨bound, rfl⟩ := List.getElem?_eq_some_iff.mp here
  exact List.drop_eq_getElem_cons bound

/-- A text that occurs on free places is shown by as many cells. -/
theorem Masked.front (masked : Masked text taken i cells) (here : old <+: text.drop i)
    (free : Free taken i old.length) : ∃ front rest, cells = front ++ rest ∧
      front.map Cell.char = old ∧ Masked text taken (i + old.length) rest := by
  induction old generalizing i cells with
  | nil => exact ⟨[], cells, rfl, rfl, masked⟩
  | cons c old ih =>
    rw [List.length_cons] at free
    cases masked with
    | done =>
      rw [List.drop_length] at here
      cases List.prefix_nil.mp here
    | @keep _ d rest _ there more =>
      rw [drop_of_getElem? there, List.cons_prefix_cons] at here
      obtain ⟨rfl, here⟩ := here
      obtain ⟨front, rest, rfl, shows, more⟩ := ih more here fun j from_ below =>
        free j (by omega) (by omega)
      refine ⟨.kept i c :: front, rest, rfl, by rw [List.map_cons, shows]; rfl, ?_⟩
      rwa [List.length_cons, Nat.add_comm old.length, ← Nat.add_assoc]
    | @mask t rest member some_ _ =>
      exact absurd (Span.mem_places.mpr ⟨Nat.le_refl _, by omega⟩)
        (free t.start (Nat.le_refl _) (by omega) t member)

/-- A text that is shown without an asterisk of a mask occurs there on free places. -/
theorem Masked.free_of_shows (masked : Masked text taken i cells)
    (plain : .star ∉ cells.take old.length) (shows : old <+: cells.map Cell.char) :
    old <+: text.drop i ∧ Free taken i old.length := by
  induction old generalizing i cells with
  | nil => exact ⟨List.nil_prefix, fun j from_ below => by rw [List.length_nil] at below; omega⟩
  | cons c old ih =>
    cases masked with
    | done => cases List.prefix_nil.mp shows
    | @keep _ d rest free there more =>
      rw [List.length_cons, List.take_succ_cons, List.mem_cons, not_or] at plain
      obtain ⟨rfl, inside⟩ := List.cons_prefix_cons.mp shows
      obtain ⟨here, later⟩ := ih more plain.2 inside
      refine ⟨?_, fun j from_ below => ?_⟩
      · rw [drop_of_getElem? there]
        exact List.cons_prefix_cons.mpr ⟨rfl, here⟩
      · rw [List.length_cons] at below
        rcases Nat.lt_or_ge i j with after | same
        · exact later j after (by omega)
        · have equal : j = i := by omega
          exact equal ▸ free
    | mask => exact absurd (by simp [stars]) plain

/-- Inside a span nothing is shown. -/
theorem shown_inside {t : Span} (apart : taken.Pairwise Span.Apart) (large : ∀ t ∈ taken, 0 < t.length)
    (member : t ∈ taken) (within : t.start + t.length ≤ text.length) (n : Nat) :
    ∀ j, t.start < j → j + n = t.start + t.length →
      shown taken j (text.drop j) =
        shown taken (t.start + t.length) (text.drop (t.start + t.length)) := by
  induction n with
  | zero =>
    intro j _ reached
    rw [← reached, Nat.add_zero]
  | succ n ih =>
    intro j after reached
    have inside : j ∈ t.places := Span.mem_places.mpr ⟨by omega, by omega⟩
    have here : text.drop j = text[j] :: text.drop (j + 1) := List.drop_eq_getElem_cons (by omega)
    have noStart : taken.any (·.start = j) = false := by
      rw [List.any_eq_false]
      intro u other starts
      have same : u.start = j := of_decide_eq_true starts
      have distinct : u ≠ t := by
        rintro rfl
        omega
      have place : j ∈ u.places := Span.mem_places.mpr ⟨by omega, by have := large u other; omega⟩
      exact apart.forall other member distinct j place inside
    have covered : taken.any (j ∈ ·.places) = true :=
      List.any_eq_true.mpr ⟨t, member, decide_eq_true inside⟩
    rw [here, shown, noStart, covered, if_neg Bool.false_ne_true, if_pos rfl, List.nil_append]
    exact ih (j + 1) (by omega) (by omega)

/-- The cells are determined by the spans. -/
theorem Masked.eq_shown (masked : Masked text taken i cells) (apart : taken.Pairwise Span.Apart)
    (large : ∀ t ∈ taken, 0 < t.length) : cells = shown taken i (text.drop i) := by
  induction masked with
  | done => rw [List.drop_length, shown]
  | @keep i c rest free here _ ih =>
    have noStart : taken.any (·.start = i) = false := by
      rw [List.any_eq_false]
      intro t member starts
      have same : t.start = i := of_decide_eq_true starts
      exact free t member (Span.mem_places.mpr ⟨by omega, by have := large t member; omega⟩)
    have uncovered : taken.any (i ∈ ·.places) = false := by
      rw [List.any_eq_false]
      exact fun t member inside => free t member (of_decide_eq_true inside)
    rw [drop_of_getElem? here, shown, noStart, uncovered, if_neg Bool.false_ne_true,
      if_neg Bool.false_ne_true, ih]
    rfl
  | @mask t rest member some_ more ih =>
    have within := more.within
    have here : text.drop t.start = text[t.start] :: text.drop (t.start + 1) :=
      List.drop_eq_getElem_cons (by omega)
    have starts : taken.any (·.start = t.start) = true :=
      List.any_eq_true.mpr ⟨t, member, decide_eq_true rfl⟩
    rw [here, shown, starts, if_pos rfl, ih,
      shown_inside apart large member within (t.length - 1) (t.start + 1) (by omega) (by omega)]

/-- No match of the text has an asterisk of a mask. -/
def Unmixed (old : List Char) (cells : List Cell) : Prop :=
  ∀ tail, tail <:+ cells → old <+: tail.map Cell.char → .star ∉ tail.take old.length

theorem Unmixed.suffix {tail : List Cell} (unmixed : Unmixed old cells) (behind : tail <:+ cells) :
    Unmixed old tail :=
  fun _ further => unmixed _ (further.trans behind)

theorem unmixed_of_completes {secret : String} (plain : completes secret cells = false) :
    Unmixed secret.toList cells := by
  intro tail behind shows star
  have none_ := List.any_eq_false.mp plain tail ((List.mem_tails _ _).mpr behind)
  rw [List.isPrefixOf_iff_prefix.mpr shows, Bool.true_and, decide_eq_true star] at none_
  exact none_ rfl

/-- A pass over the message takes the occurrences that first fit takes: the induction is on the
cells, and what the pass has taken so far ends where they begin. -/
theorem masked_replaceAll (unmixed : Unmixed old cells) (some_ : old ≠ [])
    (masked : Masked text before i cells) (older : ∀ t ∈ before, t ∈ taken)
    (newer : ∀ t ∈ taken, t ∈ before ∨ t.start + t.length ≤ i) :
    Masked text (firstFit taken (occurrencesFrom old text i)) i
      (replaceAll Cell.char old stars cells) := by
  induction length : cells.length using Nat.strong_induction_on generalizing i cells taken with
  | _ n ih =>
  subst length
  have positive := List.length_pos_iff.mpr some_
  cases masked with
  | done =>
    rw [occurrencesFrom, Nat.sub_self]
    exact .done
  | @mask t rest member large more =>
    -- no match begins in the mask, and its span leaves no room for one
    have other : ∀ tail, .star :: tail <:+ .star :: .star :: .star :: rest →
        ¬old <+: (Cell.star :: tail).map Cell.char := by
      intro tail behind shows
      refine unmixed _ behind shows ?_
      rw [← Nat.sub_add_cancel positive, List.take_succ_cons]
      exact List.mem_cons_self ..
    have same : replaceAll Cell.char old stars (stars ++ rest) =
        stars ++ replaceAll Cell.char old stars rest := by
      simp only [stars, List.cons_append, List.nil_append]
      rw [replaceAll_cons (other _ ⟨[], rfl⟩), replaceAll_cons (other _ ⟨[.star], rfl⟩),
        replaceAll_cons (other _ ⟨[.star, .star], rfl⟩)]
    have skip : firstFit taken (occurrencesFrom old text t.start) =
        firstFit taken (occurrencesFrom old text (t.start + t.length)) := by
      refine firstFit_skip (by omega) more.within fun p from_ below _ => ?_
      refine ⟨t, older t member, Span.overlaps_iff.mpr ⟨p, ?_, ?_⟩⟩
      · exact Span.mem_places.mpr ⟨Nat.le_refl _, by simp only; omega⟩
      · exact Span.mem_places.mpr ⟨from_, below⟩
    rw [same, skip]
    refine .mask (subset_firstFit (older t member)) large ?_
    refine ih rest.length (by simp [stars]; omega) (unmixed.suffix (List.suffix_append ..)) more
      older (fun u inside => ?_) rfl
    exact (newer u inside).imp_right fun ends => by omega
  | @keep _ c rest free here more =>
    have bound := (List.getElem?_eq_some_iff.mp here).1
    by_cases shows : old <+: (Cell.kept i c :: rest).map Cell.char
    · obtain ⟨occurs, vacant⟩ := (Masked.keep free here more).free_of_shows
        (unmixed _ (List.suffix_refl _) shows) shows
      obtain ⟨front, tail, split, shown, after⟩ :=
        (Masked.keep free here more).front occurs vacant
      have apart : ∀ t ∈ taken,
          Span.overlaps { start := i, length := old.length } t = false := by
        intro t member
        by_contra both
        obtain ⟨j, own, other⟩ := Span.overlaps_iff.mp (Bool.not_eq_false _ ▸ both)
        obtain ⟨from_, below⟩ := Span.mem_places.mp own
        rcases newer t member with old_ | ends
        · exact vacant j from_ below t old_ other
        · have upto := (Span.mem_places.mp other).2
          simp only at from_
          omega
      have fits := occurs.length_le
      rw [List.length_drop] at fits
      have took : firstFit taken (occurrencesFrom old text i) =
          firstFit (taken ++ [{ start := i, length := old.length }])
            (occurrencesFrom old text (i + old.length)) := by
        rw [occurrencesFrom_here bound occurs, firstFit, List.foldl_cons, fit_apart apart]
        refine firstFit_skip (by omega) (by omega) fun p from_ below _ => ?_
        refine ⟨_, List.mem_append_right _ (List.mem_singleton_self _),
          Span.overlaps_iff.mpr ⟨p, ?_, ?_⟩⟩
        · exact Span.mem_places.mpr ⟨Nat.le_refl _, by simp only; omega⟩
        · exact Span.mem_places.mpr ⟨by simp only; omega, below⟩
      have lengths := congrArg List.length split
      have shownLength : front.length = old.length := by rw [← shown, List.length_map]
      rw [List.length_append] at lengths
      rw [split, replaceAll_match shown some_, took]
      refine Masked.mask (t := { start := i, length := old.length })
        (subset_firstFit (List.mem_append_right _ (List.mem_singleton_self _))) positive ?_
      refine ih tail.length (by omega) (unmixed.suffix ⟨front, split.symm⟩) after
        (fun t member => List.mem_append_left _ (older t member)) (fun t member => ?_) rfl
      rcases List.mem_append.mp member with earlier | new
      · exact (newer t earlier).imp_right fun ends => by omega
      · rw [List.mem_singleton.mp new]
        exact Or.inr (Nat.le_refl _)
    · have skip : firstFit taken (occurrencesFrom old text i) =
          firstFit taken (occurrencesFrom old text (i + 1)) := by
        refine firstFit_skip (by omega) bound fun p from_ below occurs => ?_
        have same : p = i := by omega
        subst same
        -- it occurs here and is not shown, so some span has a place of it
        by_contra lonely
        refine shows ?_
        obtain ⟨front, tail, split, shown, _⟩ :=
          (Masked.keep free here more).front occurs fun j from_ below t member inside =>
            lonely ⟨t, older t member, Span.overlaps_iff.mpr ⟨j,
              Span.mem_places.mpr ⟨from_, below⟩, inside⟩⟩
        rw [split, List.map_append, shown]
        exact List.prefix_append ..
      rw [replaceAll_cons shows, skip]
      refine .keep (fun t member inside => ?_) here
        (ih rest.length (Nat.lt_succ_self _) (unmixed.suffix (List.suffix_cons ..)) more older
          (fun t member => ?_) rfl)
      · rcases mem_firstFit member with earlier | later
        · rcases newer t earlier with old_ | ends
          · exact free t old_ inside
          · have upto := (Span.mem_places.mp inside).2
            omega
        · have from_ := ((mem_occurrencesFrom some_).mp later).1
          have upto := (Span.mem_places.mp inside).1
          omega
      · exact (newer t member).imp_right fun ends => by omega

end Masked

/-! ### All of them -/

section Secrets

variable {text : List Char} {secrets : List String} {taken : List Span} {cells : List Cell}

theorem isSecret_ne_nil {secret : String} (long : isSecret secret = true) : secret.toList ≠ [] := by
  intro none_
  rw [isSecret, decide_eq_true_eq, ← String.length_toList, none_, List.length_nil] at long
  omega

theorem length_pos_of_mem_occurrences {s : Span} (member : s ∈ occurrences secrets text) :
    0 < s.length := by
  obtain ⟨secret, listed, inside⟩ := List.mem_flatMap.mp member
  have some_ := isSecret_ne_nil (List.mem_filter.mp listed).2
  rw [((mem_occurrencesFrom some_).mp inside).2.2]
  exact List.length_pos_iff.mpr some_

/-- Pass by pass, what is masked are the occurrences that first fit takes. -/
theorem masked_scrubCells (plain : PlainFrom text taken secrets)
    (masked : Masked text taken 0 cells) (apart : taken.Pairwise Span.Apart)
    (large : ∀ t ∈ taken, 0 < t.length) :
    Masked text (firstFit taken (occurrences secrets text)) 0 (scrubCells secrets cells) := by
  induction secrets generalizing taken cells with
  | nil => exact masked
  | cons secret secrets ih =>
    have split : occurrences (secret :: secrets) text =
        occurrences [secret] text ++ occurrences secrets text := by
      simp only [occurrences, ← List.flatMap_append, ← List.filter_append, List.singleton_append]
    have positive : ∀ t ∈ firstFit taken (occurrences [secret] text), 0 < t.length :=
      fun t member => (mem_firstFit member).elim (large t) length_pos_of_mem_occurrences
    rw [split, firstFit_append, scrubCells, List.foldl_cons]
    refine ih plain.2 ?_ (pairwise_firstFit apart) positive
    by_cases long : isSecret secret = true
    · have unmixed : Unmixed secret.toList cells := by
        apply unmixed_of_completes
        rw [masked.eq_shown apart large, List.drop_zero]
        exact plain.1 long
      rw [if_pos long, occurrences, List.filter_cons_of_pos long, List.filter_nil,
        List.flatMap_singleton]
      exact masked_replaceAll unmixed (isSecret_ne_nil long) masked (fun _ member => member)
        fun _ member => Or.inl member
    · rw [if_neg long, occurrences, List.filter_cons_of_neg long]
      exact masked

theorem mem_occurrences {s : Span} : s ∈ occurrences secrets text ↔ ∃ secret ∈ secrets,
    4 ≤ secret.length ∧ secret.toList <+: text.drop s.start ∧ s.length = secret.length := by
  simp only [occurrences, List.mem_flatMap, List.mem_filter]
  constructor
  · rintro ⟨secret, ⟨member, long⟩, inside⟩
    obtain ⟨_, here, length⟩ := (mem_occurrencesFrom (isSecret_ne_nil long)).mp inside
    rw [String.length_toList] at length
    exact ⟨secret, member, of_decide_eq_true long, here, length⟩
  · rintro ⟨secret, member, long, here, length⟩
    have secret_ : isSecret secret = true := decide_eq_true long
    refine ⟨secret, ⟨member, secret_⟩, (mem_occurrencesFrom (isSecret_ne_nil secret_)).mpr ?_⟩
    rw [String.length_toList]
    exact ⟨Nat.zero_le _, here, length⟩

end Secrets

/-- Values without asterisks are completed by none. -/
theorem plainFrom_of_notMem (text : List Char) (taken : List Span) {secrets : List String}
    (plain : ∀ secret ∈ secrets, isSecret secret = true → '*' ∉ secret.toList) :
    PlainFrom text taken secrets := by
  induction secrets generalizing taken with
  | nil => trivial
  | cons secret secrets ih =>
    refine ⟨fun long => ?_, ih _ fun other member => plain other (List.mem_cons_of_mem _ member)⟩
    refine List.any_eq_false.mpr fun tail _ mixed => ?_
    rw [Bool.and_eq_true, List.isPrefixOf_iff_prefix, decide_eq_true_eq] at mixed
    obtain ⟨shows, star⟩ := mixed
    refine plain secret (List.mem_cons_self ..) long ?_
    rw [List.prefix_iff_eq_take.mp shows, ← List.map_take]
    exact List.mem_map_of_mem (f := Cell.char) star

-- completed by a mask, the second value takes a character of the third
example : Covered "xabcdRSTU" ["abcd", "x***R", "RSTU"] ∧
    scrub "xabcdRSTU" ["abcd", "x***R", "RSTU"] = "***STU" := by
  decide

end MegooPM.Scrubbing
