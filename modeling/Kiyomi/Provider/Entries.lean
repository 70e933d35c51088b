import Kiyomi.Provider.Routing

namespace Kiyomi.Provider

open Go

/-! # Entries of plugins -/

/-- The entry of a plugin, as `UnregisterPlugin` recognises it. -/
def Candidate.isOf (pluginID : String) (c : Candidate) : Bool :=
  !c.isBuiltIn && c.pluginID == pluginID

theorem Candidate.isOf_iff {pluginID : String} {c : Candidate} :
    c.isOf pluginID = true ↔ c.slot = (pluginID, false) := by
  rw [isOf, slot, Prod.mk.injEq, Bool.and_eq_true, Bool.not_eq_true', beq_iff_eq, and_comm]

namespace Registry

variable {r r' : Registry} {baseID pref pluginID : String} {list : List Candidate}

/-- The list notes each provider under its own id and the slot that `Register` gives it,
and each slot once. -/
structure Noted (baseID : String) (list : List Candidate) : Prop where
  id : ∀ c ∈ list, c.provider.id = baseID
  slot : ∀ c ∈ list, c.slot = (Candidate.ofProvider c.provider).slot
  slots : (list.map Candidate.slot).Nodup

theorem registered_cases (p : Provider) (list : List Candidate) :
    (∃ before c after, list = before ++ c :: after ∧ c.slot = (Candidate.ofProvider p).slot ∧
      registered p list = before ++ Candidate.ofProvider p :: after) ∨
    (∀ c ∈ list, c.slot ≠ (Candidate.ofProvider p).slot) ∧
      registered p list = list ++ [Candidate.ofProvider p] := by
  unfold registered
  cases updated : updateFirst (fun c => c.slot == (Candidate.ofProvider p).slot)
      (fun _ => Candidate.ofProvider p) list with
  | none => exact .inr ⟨fun c member => by simpa using updateFirst_eq_none updated c member, rfl⟩
  | some list' =>
      rcases updateFirst_eq_some updated with ⟨before, c, after, parts, found, changed⟩
      exact .inl ⟨before, c, after, parts, beq_iff_eq.mp found, changed⟩

namespace Noted

theorem filter (noted : Noted baseID list) (kept : Candidate → Bool) :
    Noted baseID (list.filter kept) where
  id c member := noted.id c (List.mem_of_mem_filter member)
  slot c member := noted.slot c (List.mem_of_mem_filter member)
  slots := noted.slots.sublist (List.filter_sublist.map _)

theorem replace {before after : List Candidate} {c d : Candidate}
    (noted : Noted baseID (before ++ c :: after)) (id : d.provider.id = baseID)
    (own : d.slot = (Candidate.ofProvider d.provider).slot) (sameSlot : d.slot = c.slot) :
    Noted baseID (before ++ d :: after) := by
  have kept {property : Candidate → Prop} (old : ∀ e ∈ before ++ c :: after, property e)
      (new : property d) : ∀ e ∈ before ++ d :: after, property e := by
    intro e member
    rcases List.mem_append.mp member with left | right
    · exact old e (List.mem_append_left _ left)
    · rcases List.mem_cons.mp right with rfl | right
      · exact new
      · exact old e (List.mem_append_right _ (List.mem_cons_of_mem _ right))
  refine ⟨kept noted.id id, kept noted.slot own, ?_⟩
  have slots : (before ++ d :: after).map Candidate.slot =
      (before ++ c :: after).map Candidate.slot := by
    simp [sameSlot]
  exact slots ▸ noted.slots

theorem registered (noted : Noted baseID list) {p : Provider} (id : p.id = baseID) :
    Noted baseID (registered p list) := by
  rcases registered_cases p list with ⟨before, c, after, rfl, sameSlot, result⟩ | ⟨fresh, result⟩
  · rw [result]
    exact noted.replace id rfl sameSlot.symm
  · rw [result]
    refine ⟨?_, ?_, ?_⟩
    · rw [List.forall_mem_append, List.forall_mem_singleton]
      exact ⟨noted.id, id⟩
    · rw [List.forall_mem_append, List.forall_mem_singleton]
      exact ⟨noted.slot, rfl⟩
    · rw [List.map_append, List.map_singleton, ← List.concat_eq_append]
      refine List.Nodup.concat (fun member => ?_) noted.slots
      rcases List.mem_map.mp member with ⟨c, isIn, same⟩
      exact fresh c isIn same

/-- A list with at most one entry in a slot, reduced to the slot. -/
theorem filter_isOf_replace {before after : List Candidate} {c d : Candidate}
    (noted : Noted baseID (before ++ c :: after)) (sameSlot : d.slot = c.slot)
    (isOf : d.isOf pluginID = true) :
    (before ++ d :: after).filter (Candidate.isOf pluginID) = [d] := by
  have slots := noted.slots
  rw [List.map_append, List.map_cons, List.nodup_append, List.nodup_cons] at slots
  have slot := sameSlot.symm.trans (Candidate.isOf_iff.mp isOf)
  have none (part : List Candidate) (others : c.slot ∉ part.map Candidate.slot) :
      part.filter (Candidate.isOf pluginID) = [] := by
    rw [List.filter_eq_nil_iff]
    intro e member eIsOf
    exact others (List.mem_map.mpr ⟨e, member, (Candidate.isOf_iff.mp eIsOf).trans slot.symm⟩)
  rw [List.filter_append, List.filter_cons_of_pos isOf, none before, none after slots.2.1.1]
  · rfl
  · exact fun member => slots.2.2 _ member _ List.mem_cons_self rfl

/-- After `Register` the new entry is the only one of its plugin. -/
theorem registered_own (noted : Noted baseID list) {p : Provider}
    (isOf : (Candidate.ofProvider p).isOf pluginID = true) :
    (Registry.registered p list).filter (Candidate.isOf pluginID) = [Candidate.ofProvider p] := by
  rcases registered_cases p list with ⟨before, c, after, rfl, sameSlot, result⟩ | ⟨fresh, result⟩
  · rw [result]
    exact noted.filter_isOf_replace sameSlot.symm isOf
  · rw [result, List.filter_append, List.filter_cons_of_pos isOf]
    have none : list.filter (Candidate.isOf pluginID) = [] := by
      rw [List.filter_eq_nil_iff]
      intro c member cIsOf
      exact fresh c member ((Candidate.isOf_iff.mp cIsOf).trans (Candidate.isOf_iff.mp isOf).symm)
    rw [none]
    rfl

end Noted

/-- `Register` leaves the entries of the other plugins and the built-in alone. -/
theorem registered_others {p : Provider} (isOf : (Candidate.ofProvider p).isOf pluginID = true) :
    (registered p list).filter (fun c => !c.isOf pluginID) =
      list.filter fun c => !c.isOf pluginID := by
  rcases registered_cases p list with ⟨before, c, after, rfl, sameSlot, result⟩ | ⟨_, result⟩
  · have cIsOf : c.isOf pluginID = true :=
      Candidate.isOf_iff.mpr (sameSlot.trans (Candidate.isOf_iff.mp isOf))
    simp [result, isOf, cIsOf]
  · simp [result, isOf]

theorem mem_keys_of_candidate {c : Candidate} (member : c ∈ r.candidatesOf baseID) :
    baseID ∈ r.candidates.keys := by
  by_contra absent
  rw [candidatesOf, AList.lookup_eq_none.mpr absent] at member
  exact List.not_mem_nil member

/-! ## Operations keep the notes -/

/-- Every entry is noted, and every route leads to an entry. -/
structure Sound (r : Registry) : Prop where
  current : r.Current
  noted : ∀ baseID, Noted baseID (r.candidatesOf baseID)

/-- A replacement takes the place of an implementation of the same provider. -/
def Operation.KeepsIdentity : Operation → Prop
  | .swapProvider _ oldProv newProv => newProv.id = oldProv.id ∧
      (Candidate.ofProvider newProv).slot = (Candidate.ofProvider oldProv).slot
  | _ => True

theorem sound_new : Sound new where
  current := current_new
  noted _ := ⟨fun _ member => absurd member List.not_mem_nil,
    fun _ member => absurd member List.not_mem_nil, List.nodup_nil⟩

theorem Recomputed.sound (recomputed : Recomputed r r' baseID list pref) (sound : r.Sound)
    (noted : Noted baseID list) : r'.Sound := by
  refine ⟨recomputed.current sound.current, fun other => ?_⟩
  rw [recomputed.candidates]
  split
  · rename_i same
    exact same ▸ noted
  · exact sound.noted other

theorem sound_register (sound : r.Sound) (p : Provider) : (r.register p).Sound :=
  (recomputed_register sound.current.contained p).sound sound ((sound.noted p.id).registered rfl)

theorem keepCandidates_sound (sound : r.Sound) (baseID : String) (kept : Candidate → Bool) :
    (r.keepCandidates baseID ((r.candidatesOf baseID).filter kept)).Sound :=
  (recomputed_keepCandidates sound.current.contained baseID _).sound sound
    ((sound.noted baseID).filter kept)

theorem sound_unregisterPlugin (sound : r.Sound) (pluginID : String) :
    (r.unregisterPlugin pluginID).Sound := by
  unfold unregisterPlugin
  induction r.candidates.keys generalizing r with
  | nil => exact sound
  | cons baseID bases induction => exact induction (keepCandidates_sound sound baseID _)

theorem sound_apply (sound : r.Sound) {operation : Operation}
    (keeps : operation.KeepsIdentity) : (r.apply operation).Sound := by
  cases operation with
  | register p =>
      cases p with
      | none => exact sound
      | some p => exact sound_register sound p
  | swapProvider baseID oldProv newProv =>
      change (r.swapProvider baseID oldProv newProv).2.Sound
      rcases swapProvider_cases sound.current.contained baseID oldProv newProv with
        same | ⟨list, updated, recomputed⟩
      · rwa [same]
      · apply recomputed.sound sound
        rcases updateFirst_eq_some updated with ⟨before, c, after, parts, found, rfl⟩
        have isOld : c.provider = oldProv := of_decide_eq_true found
        have noted := sound.noted baseID
        rw [parts] at noted
        have member : c ∈ before ++ c :: after := List.mem_append_right _ List.mem_cons_self
        have slot : c.slot = (Candidate.ofProvider newProv).slot := by
          rw [noted.slot c member, isOld, keeps.2]
        refine noted.replace ?_ slot rfl
        rw [← noted.id c member, isOld]
        exact keeps.1
  | unregister id =>
      change (r.unregister id).Sound
      unfold unregister
      split
      · exact keepCandidates_sound sound _ _
      · exact keepCandidates_sound sound _ _
  | unregisterPlugin pluginID => exact sound_unregisterPlugin sound pluginID
  | setUserPreference providerID preferredSource =>
      exact (recomputed_setUserPreference sound.current.contained providerID
        preferredSource).sound sound (sound.noted providerID)

/-! ## Registering several providers -/

theorem sound_registerAll (sound : r.Sound) (providers : List Provider) :
    (providers.foldl register r).Sound := by
  induction providers generalizing r with
  | nil => exact sound
  | cons p providers induction => exact induction (sound_register sound p)

theorem candidatesOf_registerAll (sound : r.Sound) {providers : List Provider}
    (distinct : (providers.map Provider.id).Nodup) (baseID : String) :
    (providers.foldl register r).candidatesOf baseID =
      match providers.find? fun p => p.id == baseID with
      | none => r.candidatesOf baseID
      | some p => registered p (r.candidatesOf baseID) := by
  induction providers generalizing r with
  | nil => rfl
  | cons p providers induction =>
      rw [List.map_cons, List.nodup_cons] at distinct
      rw [List.foldl_cons, induction (sound_register sound p) distinct.2, List.find?_cons,
        (recomputed_register sound.current.contained p).candidates]
      by_cases same : p.id = baseID
      · have absent : providers.find? (fun q => q.id == baseID) = none := by
          rw [List.find?_eq_none]
          intro q member isBase
          exact distinct.1 (List.mem_map.mpr ⟨q, member, (beq_iff_eq.mp isBase).trans same.symm⟩)
        rw [absent, if_pos same.symm, same, beq_self_eq_true]
      · rw [if_neg (Ne.symm same), beq_eq_false_iff_ne.mpr same]

theorem lacks_registerAll {p : Provider} (sound : r.Sound) (lacks : r.Lacks p)
    {providers : List Provider} (absent : p ∉ providers) :
    (providers.foldl register r).Lacks p := by
  induction providers generalizing r with
  | nil => exact lacks
  | cons q providers induction =>
      rw [List.mem_cons, not_or] at absent
      have other : ¬ Operation.Brings p (.register (some q)) :=
        fun brings => absent.1 (Option.some_inj.mp brings).symm
      exact induction (sound_register sound q) (lacks_apply sound.current.contained lacks other)
        absent.2

end Registry

end Kiyomi.Provider

