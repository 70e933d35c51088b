import Kiyomi.Provider.Entries
import Mathlib.Data.List.Perm.Basic

namespace Kiyomi.Provider

open Go

/-! # Winners

What the base id resolves to, in terms of the set of candidates. -/

/-- The first member with a property is the same in every order exactly if no two members
have it. -/
theorem find_perm_iff {α : Type} {holds : α → Bool} {list : List α} :
    (∀ first second : List α, first.Perm list → second.Perm list →
      first.find? holds = second.find? holds) ↔
    ∀ c ∈ list, ∀ d ∈ list, holds c = true → holds d = true → c = d := by
  constructor
  · intro same c member d other holdsC holdsD
    have leads {e : α} (isIn : e ∈ list) (holdsE : holds e = true) :
        ∃ order : List α, order.Perm list ∧ order.find? holds = some e := by
      rcases List.append_of_mem isIn with ⟨before, after, rfl⟩
      exact ⟨e :: (before ++ after), List.perm_middle.symm, List.find?_cons_of_pos holdsE⟩
    rcases leads member holdsC with ⟨first, isFirst, findsC⟩
    rcases leads other holdsD with ⟨second, isSecond, findsD⟩
    rw [same first second isFirst isSecond, findsD] at findsC
    exact (Option.some.inj findsC).symm
  · intro single first second isFirst isSecond
    have perm := isFirst.trans isSecond.symm
    cases found : first.find? holds with
    | none =>
        rw [List.find?_eq_none] at found
        refine (List.find?_eq_none.mpr fun c member => ?_).symm
        exact found c (perm.symm.subset member)
    | some c =>
        have member := List.mem_of_find?_eq_some found
        have holdsC := List.find?_some found
        cases alsoFound : second.find? holds with
        | none => exact absurd holdsC (List.find?_eq_none.mp alsoFound c (perm.subset member))
        | some d =>
            have other := List.mem_of_find?_eq_some alsoFound
            rw [single c (isFirst.subset member) d (isSecond.subset other) holdsC
              (List.find?_some alsoFound)]

/-- The plugin that the preference names, unless it names the built-in. -/
def Candidate.isChosen (pref : String) (list : List Candidate) (c : Candidate) : Bool :=
  pref != "" && !c.isBuiltIn && c.pluginID == pref &&
    !(pref == "builtin" && list.any Candidate.isBuiltIn)

/-- A built-in, or where there is none a candidate that no other one exceeds in version. -/
def Candidate.leads (list : List Candidate) (c : Candidate) : Bool :=
  c.isBuiltIn ||
    list.all fun d => !d.isBuiltIn && decide (compareVersionStrings d.version c.version ≤ 0)

/-- The candidates leave one winner: the preference names it, or nothing is level with it. -/
def Decided (pref : String) (list : List Candidate) : Prop :=
  (∃ c ∈ list, c.isChosen pref list = true) ∨
    ∀ c ∈ list, ∀ d ∈ list, c.leads list = true → d.leads list = true → c = d

instance (pref : String) (list : List Candidate) : Decidable (Decided pref list) :=
  inferInstanceAs (Decidable (_ ∨ _))

variable {pref : String} {list other : List Candidate}

/-! ## The election as a search -/

theorem compareVersionStrings_le_iff {v1 v2 : String} :
    compareVersionStrings v1 v2 ≤ 0 ↔ rank v1 ≤ rank v2 := by
  rw [← not_lt, ← not_lt]
  exact not_congr compareVersionStrings_pos_iff

/-- Whatever comes before the highest version is lower. -/
theorem highestVersion_first {winner : Candidate} (highest : highestVersion list = some winner) :
    ∃ before after, list = before ++ winner :: after ∧
      ∀ c ∈ before, rank c.version < rank winner.version := by
  cases list with
  | nil => contradiction
  | cons first rest =>
      induction rest generalizing first with
      | nil => exact ⟨[], [], by rw [← Option.some.inj highest]; rfl, by simp⟩
      | cons c rest induction =>
          rw [highestVersion, List.foldl_cons] at highest
          split at highest
          · rename_i higher
            rcases induction c highest with ⟨before, after, parts, lower⟩
            have top := (@highestVersion_spec (c :: rest) _ highest).2 c List.mem_cons_self
            refine ⟨first :: before, after, by rw [parts]; rfl, ?_⟩
            rw [List.forall_mem_cons]
            exact ⟨(compareVersionStrings_pos_iff.mp higher).trans_le top, lower⟩
          · rename_i level
            have below := not_lt.mp (level ∘ compareVersionStrings_pos_iff.mpr)
            rcases induction first highest with ⟨before, after, parts, lower⟩
            cases before with
            | nil =>
                rw [List.nil_append, List.cons.injEq] at parts
                exact ⟨[], c :: after, by rw [parts.1, parts.2]; rfl, by simp⟩
            | cons head before =>
                rw [List.cons_append, List.cons.injEq] at parts
                rw [List.forall_mem_cons] at lower
                refine ⟨first :: c :: before, after, by rw [parts.2]; rfl, ?_⟩
                rw [List.forall_mem_cons, List.forall_mem_cons, parts.1]
                exact ⟨lower.1, (parts.1 ▸ below).trans_lt lower.1, lower.2⟩

theorem leads_iff {c : Candidate} : c.leads list = true ↔ c.isBuiltIn = true ∨
    ∀ d ∈ list, d.isBuiltIn = false ∧ rank d.version ≤ rank c.version := by
  simp [Candidate.leads, compareVersionStrings_le_iff]

theorem isChosen_iff {c : Candidate} : c.isChosen pref list = true ↔
    pref ≠ "" ∧ c.isBuiltIn = false ∧ c.pluginID = pref ∧
      (pref = "builtin" → ∀ d ∈ list, d.isBuiltIn = false) := by
  simp [Candidate.isChosen, and_assoc, imp_iff_not_or]

theorem highestVersion_eq_find (plugins : ∀ c ∈ list, c.isBuiltIn = false) :
    highestVersion list = list.find? (Candidate.leads list) := by
  cases highest : highestVersion list with
  | none =>
      cases list with
      | nil => rfl
      | cons first rest => cases highest
  | some winner =>
      have spec := highestVersion_spec highest
      rcases highestVersion_first highest with ⟨before, after, parts, lower⟩
      symm
      rw [List.find?_eq_some_iff_append]
      refine ⟨leads_iff.mpr (.inr fun d member => ⟨plugins d member, spec.2 d member⟩),
        before, after, parts, fun c member => ?_⟩
      have isIn : c ∈ list := parts ▸ List.mem_append_left _ member
      rw [Bool.not_eq_true', ← Bool.not_eq_true, leads_iff, plugins c isIn]
      rintro (builtIn | top)
      · contradiction
      · exact absurd (top winner spec.1).2 (lower c member).not_ge

theorem builtIn_eq_find {builtIn : Candidate}
    (found : list.find? Candidate.isBuiltIn = some builtIn) :
    list.find? (Candidate.leads list) = some builtIn := by
  have member := List.mem_of_find?_eq_some found
  have isBuiltIn := List.find?_some found
  have same : Candidate.leads list = Candidate.isBuiltIn := by
    funext c
    rw [Bool.eq_iff_iff, leads_iff, or_iff_left]
    intro top
    exact Bool.false_ne_true ((top builtIn member).1.symm.trans isBuiltIn)
  rw [same, found]

/-- Without a chosen plugin the first leading candidate is elected. -/
theorem elect_eq_find (unchosen : ∀ c ∈ list, c.isChosen pref list = false) :
    elect pref list = list.find? (Candidate.leads list) := by
  have named {c : Candidate} (found : preferred pref list = some c) :
      c.isBuiltIn = true ∧ pref = "builtin" ∨
        pref = "builtin" ∧ ∃ d ∈ list, d.isBuiltIn = true := by
    rcases preferred_eq_some found with ⟨set, member, isNamed⟩
    have notChosen := unchosen c member
    rw [← Bool.not_eq_true, isChosen_iff] at notChosen
    cases isBuiltIn : c.isBuiltIn with
    | true => exact .inl ⟨rfl, by simpa [Candidate.isNamed, isBuiltIn] using isNamed⟩
    | false =>
        have isPref : c.pluginID = pref := by
          simpa [Candidate.isNamed, isBuiltIn] using isNamed
        right
        simpa [set, isBuiltIn, isPref] using notChosen
  unfold elect
  cases found : list.find? Candidate.isBuiltIn with
  | some builtIn =>
      rw [builtIn_eq_find found]
      by_cases default : (pref == "" || pref == "builtin") = true
      · simp [default]
      · have none : preferred pref list = none := by
          rw [Option.eq_none_iff_forall_ne_some]
          intro c isPreferred
          apply default
          rcases named isPreferred with ⟨_, same⟩ | ⟨same, _⟩ <;> simp [same]
        simp [default, none]
  | none =>
      have plugins : ∀ c ∈ list, c.isBuiltIn = false := fun c member =>
        Bool.eq_false_iff.mpr (List.find?_eq_none.mp found c member)
      have none : preferred pref list = none := by
        rw [Option.eq_none_iff_forall_ne_some]
        intro c isPreferred
        rcases named isPreferred with ⟨isBuiltIn, _⟩ | ⟨_, d, member, isBuiltIn⟩
        · have member := (preferred_eq_some isPreferred).2.1
          exact Bool.false_ne_true ((plugins c member).symm.trans isBuiltIn)
        · exact Bool.false_ne_true ((plugins d member).symm.trans isBuiltIn)
      simp [none, highestVersion_eq_find plugins]

theorem elect_chosen (distinct : (list.map Candidate.pluginID).Nodup) {c : Candidate}
    (member : c ∈ list) (chosen : c.isChosen pref list = true) : elect pref list = some c := by
  rcases isChosen_iff.mp chosen with ⟨set, isPlugin, isPref, free⟩
  have isPreferred : preferred pref list = some c := by
    cases found : preferred pref list with
    | none =>
        rw [preferred, if_pos set, List.find?_eq_none] at found
        exact absurd (found c member) (by simp [Candidate.isNamed, isPlugin, isPref])
    | some d =>
        rcases preferred_eq_some found with ⟨_, isIn, isNamed⟩
        have isPluginToo : d.isBuiltIn = false := by
          cases isBuiltIn : d.isBuiltIn with
          | false => rfl
          | true =>
              have builtin : pref = "builtin" := by
                simpa [Candidate.isNamed, isBuiltIn] using isNamed
              rw [← isBuiltIn, free builtin d isIn]
        have same : d.pluginID = pref := by
          simpa [Candidate.isNamed, isPluginToo] using isNamed
        rw [List.inj_on_of_nodup_map distinct isIn member (same.trans isPref.symm)]
  unfold elect
  by_cases builtin : pref = "builtin"
  · have none : list.find? Candidate.isBuiltIn = none :=
      List.find?_eq_none.mpr fun d isIn => by simp [free builtin d isIn]
    simp [none, isPreferred]
  · simp [isPreferred, set, builtin]

/-! ## The order of the candidates -/

theorem isChosen_perm (perm : list.Perm other) (c : Candidate) :
    c.isChosen pref list = c.isChosen pref other := by
  rw [Bool.eq_iff_iff, isChosen_iff, isChosen_iff]
  simp only [perm.mem_iff]

theorem leads_perm (perm : list.Perm other) : Candidate.leads list = Candidate.leads other := by
  funext c
  rw [Bool.eq_iff_iff, leads_iff, leads_iff]
  simp only [perm.mem_iff]

theorem elect_perm_iff (distinct : (list.map Candidate.pluginID).Nodup) :
    (∀ first second : List Candidate, first.Perm list → second.Perm list →
      elect pref first = elect pref second) ↔ Decided pref list := by
  by_cases chosen : ∃ c ∈ list, c.isChosen pref list = true
  · refine iff_of_true (fun first second isFirst isSecond => ?_) (.inl chosen)
    rcases chosen with ⟨c, member, isChosen⟩
    have elects {order : List Candidate} (perm : order.Perm list) : elect pref order = some c :=
      elect_chosen ((perm.map _).nodup_iff.mpr distinct) (perm.symm.subset member)
        ((isChosen_perm perm c).trans isChosen)
    rw [elects isFirst, elects isSecond]
  · have unchosen : ∀ c ∈ list, c.isChosen pref list = false := by simpa using chosen
    have elects {order : List Candidate} (perm : order.Perm list) :
        elect pref order = order.find? (Candidate.leads list) := by
      rw [← leads_perm perm]
      refine elect_eq_find fun c member => ?_
      rw [isChosen_perm perm]
      exact unchosen c (perm.subset member)
    rw [Decided, or_iff_right chosen, ← find_perm_iff]
    constructor
    · intro same first second isFirst isSecond
      rw [← elects isFirst, ← elects isSecond]
      exact same first second isFirst isSecond
    · intro same first second isFirst isSecond
      rw [elects isFirst, elects isSecond]
      exact same first second isFirst isSecond

namespace Registry

variable {r : Registry} {baseID : String}

/-! ## Registering the candidates -/

theorem ne_of_handle {c : Candidate} {handle : String} (isHandle : c.handle baseID = some handle) :
    handle ≠ baseID := by
  have longer (rest : String) : baseID ++ "@" ++ rest ≠ baseID := by
    intro same
    have lengths := congrArg String.length same
    rw [String.length_append, String.length_append] at lengths
    have one : "@".length = 1 := rfl
    omega
  unfold Candidate.handle at isHandle
  split at isHandle
  · cases isHandle
    rw [show "@builtin" = "@" ++ "builtin" from rfl, ← String.append_assoc]
    exact longer _
  · split at isHandle
    · cases isHandle
      exact longer _
    · contradiction

/-- The base id leads to the winner. -/
theorem routeIn_base (pref baseID : String) (list : List Candidate) :
    routeIn pref baseID list baseID = (elect pref list).map Candidate.provider := by
  unfold routeIn entries
  cases elect pref list with
  | none => rfl
  | some winner =>
      have missing : ((list.filterMap fun c =>
          (c.handle baseID).map fun handle => (handle, c.provider)).reverse.lookup baseID) = none := by
        rw [List.lookup_eq_none_iff]
        intro entry member
        rw [List.mem_reverse, List.mem_filterMap] at member
        rcases member with ⟨c, _, isEntry⟩
        rcases Option.map_eq_some_iff.mp isEntry with ⟨handle, isHandle, rfl⟩
        simpa using (ne_of_handle isHandle).symm
      rw [List.reverse_cons, List.lookup_append, missing]
      simp

theorem contained_run (operations : List Operation) : (operations.foldl apply new).Contained :=
  (current_foldl current_new operations).contained

/-- Providers with different slots become candidates in their order. -/
theorem registerAll (contained : r.Contained) (fresh : r.candidatesOf baseID = [])
    {providers : List Provider} (own : ∀ p ∈ providers, p.id = baseID)
    (distinct : (providers.map fun p => (Candidate.ofProvider p).slot).Nodup) :
    (providers.foldl register r).Contained ∧
    (providers.foldl register r).candidatesOf baseID = providers.map Candidate.ofProvider ∧
    (providers.foldl register r).preference baseID = r.preference baseID ∧
    (providers ≠ [] → (providers.foldl register r).get baseID =
      (elect (r.preference baseID) (providers.map Candidate.ofProvider)).map
        Candidate.provider) := by
  induction providers using List.reverseRecOn with
  | nil => exact ⟨contained, fresh, rfl, fun nonempty => absurd rfl nonempty⟩
  | append_singleton providers p induction =>
      rw [List.map_append, List.map_singleton, List.nodup_append] at distinct
      rw [List.forall_mem_append, List.forall_mem_singleton] at own
      rcases induction own.1 distinct.1 with ⟨contained, candidates, preference, _⟩
      have isBase : p.id = baseID := own.2
      have recomputed := recomputed_register contained p
      have appended : registered p ((providers.foldl register r).candidatesOf p.id) =
          (providers ++ [p]).map Candidate.ofProvider := by
        rw [isBase, candidates]
        rcases registered_cases p (providers.map Candidate.ofProvider) with
          ⟨before, c, after, parts, sameSlot, _⟩ | ⟨_, result⟩
        · have member : c ∈ providers.map Candidate.ofProvider :=
            parts ▸ List.mem_append_right _ List.mem_cons_self
          rcases List.mem_map.mp member with ⟨q, isIn, rfl⟩
          exact absurd sameSlot
            (distinct.2.2 _ (List.mem_map_of_mem isIn) _ (List.mem_singleton_self _))
        · rw [result, List.map_append, List.map_singleton]
      rw [appended, isBase, preference] at recomputed
      rw [List.foldl_append, List.foldl_cons, List.foldl_nil]
      refine ⟨recomputed.contained contained, ?_, ?_, fun _ => ?_⟩
      · rw [recomputed.candidates, if_pos rfl]
      · rw [recomputed.preference, if_pos rfl]
      · have routed := recomputed.routes .provs baseID
        rw [if_pos (.inl rfl), routeIn_base] at routed
        refine Eq.trans routed ?_
        cases elect (r.preference baseID) ((providers ++ [p]).map Candidate.ofProvider) <;> rfl

/-- A winner is what `Register` notes for its provider. -/
theorem noted_winner (pref : String) (listed : List Provider) :
    ((elect pref (listed.map Candidate.ofProvider)).map Candidate.provider).map
      Candidate.ofProvider = elect pref (listed.map Candidate.ofProvider) := by
  cases elected : elect pref (listed.map Candidate.ofProvider) with
  | none => rfl
  | some winner =>
      rcases List.mem_map.mp (mem_elect elected) with ⟨p, _, rfl⟩
      rfl

/-- The order in which the providers of one id are registered does not show in what the id
resolves to exactly if the preference or the versions decide. -/
theorem winner_order_iff {operations : List Operation} {providers : List Provider}
    (fresh : (operations.foldl apply new).candidatesOf baseID = [])
    (own : ∀ p ∈ providers, p.id = baseID)
    (distinct : (providers.map Provider.registeredPluginID).Nodup) :
    (∀ first second : List Provider, first.Perm providers → second.Perm providers →
      (first.foldl register (operations.foldl apply new)).get baseID =
        (second.foldl register (operations.foldl apply new)).get baseID) ↔
    Decided ((operations.foldl apply new).preference baseID)
      (providers.map Candidate.ofProvider) := by
  have contained := contained_run operations
  generalize operations.foldl apply new = r at fresh contained
  have plugins : ((providers.map Candidate.ofProvider).map Candidate.pluginID).Nodup := by
    rw [List.map_map]
    exact distinct
  have slots : (providers.map fun p => (Candidate.ofProvider p).slot).Nodup :=
    List.Nodup.of_map Prod.fst (by rw [List.map_map]; exact distinct)
  have resolves {order : List Provider} (perm : order.Perm providers) (nonempty : providers ≠ []) :
      (order.foldl register r).get baseID = (elect (r.preference baseID)
        (order.map Candidate.ofProvider)).map Candidate.provider := by
    refine (registerAll contained fresh (fun p member => own p (perm.subset member))
      ((perm.map _).nodup_iff.mpr slots)).2.2.2 fun empty => nonempty ?_
    exact (empty ▸ perm).nil_eq.symm
  have providersOf {order : List Candidate}
      (perm : order.Perm (providers.map Candidate.ofProvider)) :
      ∃ listed : List Provider, listed.Perm providers ∧ order = listed.map Candidate.ofProvider := by
    have mapped := (congrFun₂ (List.eq_map_comp_perm Candidate.ofProvider) order providers).mpr perm
    rcases mapped with ⟨listed, rfl, isListed⟩
    exact ⟨listed, isListed, rfl⟩
  rw [← elect_perm_iff plugins]
  by_cases nonempty : providers = []
  · subst nonempty
    refine iff_of_true (fun first second isFirst isSecond => ?_)
      fun first second isFirst isSecond => ?_
    · rw [isFirst.eq_nil, isSecond.eq_nil]
    · rw [isFirst.eq_nil, isSecond.eq_nil]
  constructor
  · intro same first second isFirst isSecond
    rcases providersOf isFirst with ⟨first, permFirst, rfl⟩
    rcases providersOf isSecond with ⟨second, permSecond, rfl⟩
    have resolved := same first second permFirst permSecond
    rw [resolves permFirst nonempty, resolves permSecond nonempty] at resolved
    rw [← noted_winner _ first, ← noted_winner _ second, resolved]
  · intro same first second isFirst isSecond
    rw [resolves isFirst nonempty, resolves isSecond nonempty,
      same _ _ (isFirst.map _) (isSecond.map _)]

/-- A release and a pre-release of its version. -/
def release : Provider :=
  { object := 1, id := "mangadex", pluginID := some "plugin-a", version := some "1.0.0" }

def preRelease : Provider :=
  { object := 2, id := "mangadex", pluginID := some "plugin-b", version := some "1.0.0-beta.1" }

/-- The pre-release wins if it comes first. -/
theorem preRelease_wins :
    ([release, preRelease].map Provider.registeredPluginID).Nodup ∧
    (∀ p ∈ [release, preRelease], p.id = "mangadex") ∧
    new.candidatesOf "mangadex" = [] ∧ new.preference "mangadex" = "" ∧
    (([release, preRelease].foldl register new).get "mangadex").map Provider.object = some 1 ∧
    (([preRelease, release].foldl register new).get "mangadex").map Provider.object = some 2 := by
  refine ⟨?_, ?_, rfl, rfl, ?_, ?_⟩ <;> decide +kernel

/-- Of two versions the higher one wins in both orders. -/
theorem winner_order_release :
    ([release, { preRelease with version := some "0.9.0" }].foldl register
      ([Operation.setUserPreference "mangadex" ""].foldl apply new)).get "mangadex" =
    ([{ preRelease with version := some "0.9.0" }, release].foldl register
      ([Operation.setUserPreference "mangadex" ""].foldl apply new)).get "mangadex" := by
  refine (@winner_order_iff "mangadex" [.setUserPreference "mangadex" ""]
    [release, { preRelease with version := some "0.9.0" }] ?_ ?_ ?_).mpr ?_ _ _ (List.Perm.refl _)
    (List.Perm.swap _ _ _)
  · decide +kernel
  · decide +kernel
  · decide +kernel
  · exact .inr (by decide +kernel)

end Registry

end Kiyomi.Provider
