import RecordFilter.Proofs.Filling
import RecordFilter.Proofs.Nesting
import RecordFilter.Proofs.QueryGroups
import RecordFilter.Proofs.Screening

namespace RecordFilter

variable {κ : Type}

namespace Language

-- The language for bags whose names have neither hints nor aliases.
def forPlainBags (builds : Regex → Bool) (settings : Settings κ) : Language κ :=
  forBags builds { settings with aliases := .empty, typeHints := .empty }

-- A condition in its outer brackets is read like one without them, one level further down.
theorem parse_bracketed {language : Language κ} {condition : Condition κ}
    (hl : ∀ comparison ∈ condition.leaves, language.Rereads comparison)
    (hproper : condition.IsProper) (hwithin : condition.Within nestingLimit) :
    language.parse condition.bracketed = .ok condition := by
  obtain ⟨hmember, hvisible⟩ := member_bracketed hl hproper.isFilled
  have hread : language.readMember (language.readPlainly nestingLimit) condition.bracketed =
      .ok (some condition) := by
    have hr := readMember_bracketed language.singleEquals nestingLimit hl hproper.isFilled
    rw [hproper.collapsed_eq] at hr
    exact hr.trans (if_pos hwithin)
  rw [parse, expression?_zero_eq_readPlainly, readPlainly_member _ _ hmember hvisible, hread]
  rfl

end Language

namespace PlainQuery

-- What a pair asks for in a language without hints.
def asked (language : Language κ) (name value : Text) : Comparison κ where
  property := (bound name).1
  name := (bound name).1
  comparator := (bound name).2
  value := .string value
  typeInfo := .scalar (.scalar .string)
  literal := value
  sizeCheck := false
  wildcard :=
    if (bound name).2 = .equals ∧ '*' ∈ value then
      some (.compiled value language.wildcardCaseSensitive)
    else none
  formats := language.formats

-- What a query asks for: for every name one of its values.
def conditionFor (language : Language κ) (pairs : List (Text × Text)) : Option (Condition κ) :=
  Condition.compose .and ((names (counted pairs)).filterMap fun name =>
    Condition.compose .or
      ((valuesOf name (counted pairs)).map fun value => .leaf (asked language name value)))

-- A query never asks for what differs from a value.
theorem equals_iff_of_bound (name : Text) :
    (bound name).2 = .equals ↔ ¬(bound name).2.isOrdering = true := by
  have hbounds := bounds_bound name
  generalize bound name = stands at hbounds ⊢
  cases hbounds <;> simp [Comparator.isOrdering]

theorem wildcardFor_bound (language : Language κ) (name value : Text) :
    language.unlimited.wildcardFor (.scalar .string) (bound name).2 value =
      .ok (asked language name value).wildcard := by
  have hstar : Wildcard.isPattern value = true ↔ '*' ∈ value := List.contains_iff_mem
  have hpattern : ((ValueType.scalar Scalar.string : ValueType κ).isString = true ∧
      ¬(bound name).2.isOrdering = true ∧ Wildcard.isPattern value = true) ↔
        (bound name).2 = .equals ∧ '*' ∈ value := by
    rw [equals_iff_of_bound, hstar]
    exact and_iff_right rfl
  rw [Language.wildcardFor, Wildcard.ofLiteral_eq, asked]
  simp only [hpattern]
  split <;> rfl

theorem isBuilt_asked (builds : Regex → Bool) (settings : Settings κ) (name value : Text) :
    (Language.forPlainBags builds settings).isBuilt
        (asked (Language.forPlainBags builds settings) name value) =
      if (bound name).2 = .equals ∧ '*' ∈ value then
        builds (Wildcard.expression value settings.wildcardCaseSensitive)
      else true := by
  rw [Language.isBuilt, asked]
  split <;> rfl

section Term

variable {name value : Text} {path : Path} (hp : Path.ofDotted (bound name).1 false = .ok path)
include hp

theorem term_eq (value : Text) : term name value = path.text ++ (bound name).2.token ++ value := by
  obtain ⟨hd, hs⟩ := Path.dotted_of_ofDotted hp
  have htext : path.text = (bound name).1 := by
    rw [Path.text, Path.wrapped, hs, hd]
    rfl
  rw [htext]
  rfl

theorem compare?_bound (builds : Regex → Bool) (settings : Settings κ) (value : Text) :
    (Language.forPlainBags builds settings).unlimited.compare? path (bound name).2 value =
      .ok (some (asked (Language.forPlainBags builds settings) name value)) := by
  obtain ⟨hd, hs⟩ := Path.dotted_of_ofDotted hp
  let language := (Language.forPlainBags builds settings).unlimited
  have halias : language.unalias path = .ok path := rfl
  -- without hints every property of a bag is a text
  have hresolve : language.shape.resolve path = .ok (.scalar (.scalar .string)) := rfl
  have htarget : language.target path (.scalar (.scalar .string)) (bound name).2 value =
      .ok (some (.string value, (asked language name value).wildcard)) := by
    rw [Language.target, hs]
    exact congrArg (Functor.map fun wildcard => some (Value.string value, wildcard))
      (wildcardFor_bound language name value)
  rw [Language.compare?, halias, Outcome.ok_bind, hresolve, Outcome.ok_bind, htarget,
    Outcome.ok_bind, hd, hs]
  rfl

theorem rereads_asked (builds : Regex → Bool) (settings : Settings κ) (hne : value ≠ [])
    (hm : Expression.Member value) :
    (Language.forPlainBags builds settings).unlimited.Rereads
      (asked (Language.forPlainBags builds settings) name value) := by
  have hmember : Expression.Member (term name value) := by
    rw [term_eq hp]
    exact (Term.member_iff path (Term.mem_tokens settings.singleEquals _) value).mpr hm
  refine Language.rereads_of_comparison? hmember ?_
  rw [term_eq hp, ← compare?_bound hp]
  exact (Language.forPlainBags builds settings).unlimited.comparison?_written settings.singleEquals
    path _ hne

end Term

section Query

variable {language : Language κ} {pairs : List (Text × Text)} {condition : Condition κ}

theorem bracket_bracketed (connective : Connective) {children : List (Condition κ)}
    (hne : children ≠ []) :
    bracket connective (children.map Condition.bracketed) =
      (Condition.gathered connective children).bracketed := by
  match children, hne with
  | [child], _ => rfl
  | first :: second :: rest, _ =>
    rw [Condition.gathered, Condition.bracketed, Condition.bracketedAll_eq_map]
    · rfl
    · exact fun _ => by simp

-- What the values of one name ask for.
def alternatives (language : Language κ) (pairs : List (Text × Text)) (name : Text) :
    Condition κ :=
  .gathered .or ((valuesOf name pairs).map fun value => .leaf (asked language name value))

theorem compose_alternatives {name : Text} (hn : name ∈ names pairs) :
    Condition.compose .or
        ((valuesOf name pairs).map fun value => .leaf (asked language name value)) =
      some (alternatives language pairs name) :=
  Condition.compose_eq_gathered .or fun h => valuesOf_ne_nil hn (List.map_eq_nil_iff.mp h)

theorem conditionFor_eq (language : Language κ) (pairs : List (Text × Text)) :
    conditionFor language pairs = Condition.compose .and
      ((names (counted pairs)).map (alternatives language (counted pairs))) := by
  rw [conditionFor, List.filterMap_eq_map_iff_forall_eq_some.mpr fun name => compose_alternatives]

theorem bracketed_alternatives {name : Text} (hn : name ∈ names pairs) :
    (alternatives language pairs name).bracketed =
      bracket .or ((valuesOf name pairs).map (term name)) := by
  have hne : (valuesOf name pairs).map
      (fun value => Condition.leaf (asked language name value)) ≠ [] :=
    fun h => valuesOf_ne_nil hn (List.map_eq_nil_iff.mp h)
  rw [alternatives, ← bracket_bracketed .or hne, List.map_map]
  rfl

-- A query is turned into the text of what it asks for, in outer brackets.
theorem exists_conditionFor (language : Language κ) (hne : counted pairs ≠ []) :
    ∃ condition, conditionFor language pairs = some condition ∧
      toFilter? pairs = some condition.bracketed := by
  have hgroups : (names (counted pairs)).map (alternatives language (counted pairs)) ≠ [] :=
    fun h => hne (names_eq_nil_iff.mp (List.map_eq_nil_iff.mp h))
  have htexts : (names (counted pairs)).map (fun name =>
        bracket .or ((valuesOf name (counted pairs)).map (term name))) =
      ((names (counted pairs)).map (alternatives language (counted pairs))).map
        Condition.bracketed := by
    rw [List.map_map]
    exact List.map_congr_left fun name hn => (bracketed_alternatives hn).symm
  have hcompose := conditionFor_eq language pairs
  rw [Condition.compose_eq_gathered .and hgroups] at hcompose
  refine ⟨_, hcompose, ?_⟩
  rw [toFilter?_eq, if_neg hne, htexts, bracket_bracketed .and hgroups]

theorem leaves_conditionFor (h : conditionFor language pairs = some condition) :
    condition.leaves = (names (counted pairs)).flatMap fun name =>
      (valuesOf name (counted pairs)).map (asked language name) := by
  rw [conditionFor_eq] at h
  rw [Condition.leaves_of_compose h, List.flatMap_map]
  refine List.flatMap_congr fun name _ => ?_
  rw [alternatives, Condition.leaves_gathered, List.flatMap_map]
  exact List.map_eq_flatMap.symm

theorem mem_leaves_conditionFor_iff (h : conditionFor language pairs = some condition)
    {comparison : Comparison κ} :
    comparison ∈ condition.leaves ↔
      ∃ pair ∈ counted pairs, comparison = asked language pair.1 pair.2 := by
  rw [leaves_conditionFor h, List.mem_flatMap]
  constructor
  · rintro ⟨name, _, hc⟩
    obtain ⟨value, hv, rfl⟩ := List.mem_map.mp hc
    exact ⟨(name, value), mem_valuesOf.mp hv, rfl⟩
  · rintro ⟨⟨name, value⟩, hp, rfl⟩
    exact ⟨name, mem_names.mpr ⟨value, hp⟩, List.mem_map_of_mem (mem_valuesOf.mpr hp)⟩

-- The alternatives for each name lie one level below the conjunction of them all.
theorem proper_conditionFor (h : conditionFor language pairs = some condition) :
    condition.IsProper ∧ condition.Within 2 := by
  have hchild : ∀ child ∈ (names (counted pairs)).map (alternatives language (counted pairs)),
      child.IsProper ∧ child.Within 1 := by
    intro child hc
    obtain ⟨name, hn, rfl⟩ := List.mem_map.mp hc
    have hleaf : ∀ leaf ∈ (valuesOf name (counted pairs)).map fun value =>
        Condition.leaf (asked language name value), leaf.IsProper ∧ leaf.Within 0 := by
      intro leaf hl
      obtain ⟨value, _, rfl⟩ := List.mem_map.mp hl
      exact ⟨.leaf, by simp [Condition.Within, Condition.groupLevels]⟩
    constructor
    · refine Condition.isProper_of_compose ?_ (compose_alternatives hn)
      exact fun leaf hl => (hleaf leaf hl).1
    · refine Condition.within_of_compose ?_ (compose_alternatives hn)
      exact fun leaf hl => (hleaf leaf hl).2
  rw [conditionFor_eq] at h
  constructor
  · exact Condition.isProper_of_compose (fun child hc => (hchild child hc).1) h
  · exact Condition.within_of_compose (fun child hc => (hchild child hc).2) h

-- What a query asks for is read from its text, if the patterns among its values can be built.
theorem parse_bracketed_conditionFor {builds : Regex → Bool} {settings : Settings κ}
    {condition : Condition κ}
    (h : conditionFor (Language.forPlainBags builds settings) pairs = some condition)
    (hgood : ∀ pair ∈ counted pairs,
      (∃ path, Path.ofDotted (bound pair.1).1 false = .ok path) ∧ Expression.Member pair.2) :
    (Language.forPlainBags builds settings).parse condition.bracketed =
      (Language.forPlainBags builds settings).screened condition.leaves condition := by
  obtain ⟨hproper, hwithin⟩ := proper_conditionFor h
  refine Language.parse_of_unlimited (Language.parse_bracketed (fun comparison hc => ?_) hproper
    fun level hl => Nat.lt_of_lt_of_le (hwithin level hl) (by decide))
  obtain ⟨pair, hpair, rfl⟩ := (mem_leaves_conditionFor_iff h).mp hc
  obtain ⟨⟨path, hp⟩, hm⟩ := hgood pair hpair
  exact rereads_asked hp builds settings (mem_counted.mp hpair).2.2 hm

end Query

-- A query asks for what it says: of every name that comes with a value one of its values, if
-- the values are members of an expression and the names are paths. A name that ends in the
-- word for a bound asks for that bound of the property before it. A value with a star is a pattern,
-- and the first one that cannot be built is at fault.
theorem parse_of_toFilter? (builds : Regex → Bool) (settings : Settings κ)
    {pairs : List (Text × Text)}
    (hpairs : ∀ pair ∈ pairs, pair.1 ≠ [] → pair.2 ≠ [] →
      (∃ path, Path.ofDotted (bound pair.1).1 false = .ok path) ∧ Expression.Member pair.2) :
    (∀ pair ∈ pairs, Bounds pair.1 (bound pair.1)) ∧
      (toFilter? pairs = none ↔ ∀ pair ∈ pairs, pair.1 = [] ∨ pair.2 = []) ∧
      ((∃ pair ∈ pairs, pair.1 ≠ [] ∧ pair.2 ≠ []) → ∃ text condition,
        toFilter? pairs = some text ∧
          conditionFor (Language.forPlainBags builds settings) pairs = some condition ∧
          (Language.forPlainBags builds settings).parse text =
            (Language.forPlainBags builds settings).screened condition.leaves condition) := by
  refine ⟨fun pair _ => bounds_bound pair.1, toFilter?_eq_none_iff, ?_⟩
  rintro ⟨pair, hpair, hne⟩
  have hcounted : counted pairs ≠ [] := List.ne_nil_of_mem (mem_counted.mpr ⟨hpair, hne⟩)
  obtain ⟨condition, hcondition, htext⟩ :=
    exists_conditionFor (Language.forPlainBags builds settings) hcounted
  refine ⟨condition.bracketed, condition, htext, hcondition, ?_⟩
  refine parse_bracketed_conditionFor hcondition fun pair hp => ?_
  obtain ⟨hpair, hname, hvalue⟩ := mem_counted.mp hp
  exact hpairs pair hpair hname hvalue

-- A query in which the pairs of one name are apart, one pair has no name, and a value holds a
-- comparator, brackets or a star.
def scattered : List (Text × Text) :=
  [("a".toList, "b=c".toList), ([], "x".toList), ("nFrom".toList, "(1;2)".toList),
    ("a".toList, "d*".toList)]

theorem parse_of_toFilter?_scattered :
    let language : Language Empty := .forPlainBags Regex.isSmall { singleEquals := true }
    toFilter? scattered = some "((a==b=c,a==d*);n=ge=(1;2))".toList ∧
      language.parse "((a==b=c,a==d*);n=ge=(1;2))".toList =
        .ok (.group .and [
          .group .or [.leaf (asked language "a".toList "b=c".toList),
            .leaf (asked language "a".toList "d*".toList)],
          .leaf (asked language "nFrom".toList "(1;2)".toList)]) := by
  intro language
  have hpath : ∀ pair ∈ scattered, pair.1 ≠ [] → pair.2 ≠ [] →
      (∃ path, Path.ofDotted (bound pair.1).1 false = .ok path) ∧ Expression.Member pair.2 := by
    simp only [scattered, List.forall_mem_cons]
    exact ⟨fun _ _ => ⟨⟨_, rfl⟩, rfl⟩, fun h => absurd rfl h, fun _ _ => ⟨⟨_, rfl⟩, rfl⟩,
      fun _ _ => ⟨⟨_, rfl⟩, rfl⟩, nofun⟩
  obtain ⟨_, _, hread⟩ := parse_of_toFilter? Regex.isSmall { singleEquals := true } hpath
  obtain ⟨text, condition, htext, hcondition, hparse⟩ :=
    hread ⟨("a".toList, "d*".toList), by decide, by decide, by decide⟩
  cases htext
  cases hcondition
  exact ⟨rfl, hparse⟩

theorem member_stars : Expression.Member Wildcard.stars := by
  refine Expression.depthAfter?_of_plain fun c hc => ?_
  rw [List.eq_of_mem_replicate hc]
  decide

-- The filter for a value that is a pattern of too many stars is the right one, and yet it is not read.
theorem stars_not_read :
    let language : Language Empty := .forPlainBags Regex.isSmall {}
    let pairs := [("a".toList, Wildcard.stars)]
    let condition : Condition Empty := .leaf (asked language "a".toList Wildcard.stars)
    (∀ pair ∈ pairs, pair.1 ≠ [] ∧ pair.2 ≠ [] ∧
        (∃ path, Path.ofDotted (bound pair.1).1 false = .ok path) ∧ Expression.Member pair.2) ∧
      toFilter? pairs = some ("a==".toList ++ Wildcard.stars) ∧
      conditionFor language pairs = some condition ∧
      language.parse ("a==".toList ++ Wildcard.stars) =
        .error (.unreadable Wildcard.stars "wildcard pattern".toList) ∧
      language.parse ("a==".toList ++ Wildcard.stars) ≠ .ok condition := by
  intro language pairs condition
  obtain ⟨count, hstars⟩ : ∃ count, Wildcard.stars = '*' :: List.replicate count '*' :=
    ⟨39999, List.replicate_succ⟩
  have hgood : ∀ pair ∈ pairs, pair.1 ≠ [] ∧ pair.2 ≠ [] ∧
      (∃ path, Path.ofDotted (bound pair.1).1 false = .ok path) ∧ Expression.Member pair.2 := by
    rw [List.forall_mem_singleton]
    exact ⟨by decide, by simp [hstars], ⟨_, rfl⟩, member_stars⟩
  have htext : toFilter? pairs = some ("a==".toList ++ Wildcard.stars) := by
    simp only [pairs, hstars]
    rfl
  have hcondition : conditionFor language pairs = some condition := by
    simp only [pairs, condition, hstars]
    rfl
  have hbuilt : language.isBuilt (asked language "a".toList Wildcard.stars) = false := by
    have hstar : '*' ∈ Wildcard.stars := by simp [hstars]
    rw [isBuilt_asked, if_pos ⟨rfl, hstar⟩]
    exact Wildcard.isSmall_stars _
  have hparse : language.parse ("a==".toList ++ Wildcard.stars) =
      .error (.unreadable Wildcard.stars "wildcard pattern".toList) := by
    have hread := parse_bracketed_conditionFor hcondition fun pair hp =>
      (hgood pair (mem_counted.mp hp).1).2.2
    have hscreened : language.screened condition.leaves condition =
        .error (.unreadable Wildcard.stars "wildcard pattern".toList) := by
      have hleaves : condition.leaves = [asked language "a".toList Wildcard.stars] := rfl
      rw [hleaves, Language.screened_singleton, hbuilt]
      rfl
    exact hread.trans hscreened
  refine ⟨hgood, htext, hcondition, hparse, ?_⟩
  rw [hparse]
  exact nofun

end PlainQuery

end RecordFilter
