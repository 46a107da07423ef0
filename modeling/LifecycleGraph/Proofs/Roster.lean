import Mathlib.Data.List.DropRight
import LifecycleGraph.Collection.Distinct
import LifecycleGraph.Graph.Schema
import LifecycleGraph.Proofs.Collection

/-!
# Rosters through any calls

The names that were entered since a roster was cleared lead to its slots in the order in which
they first came, and each member carries the stamp of its owner, its name and its slot.  Under a
name is what was entered for it last, with the changes that came since.
-/

set_option autoImplicit false

namespace LifecycleGraph

variable {α ω : Type} [Stamped α ω]

/-! ## Stamps -/

namespace Stamped

/-- The member is as stamping leaves one. -/
def Carries (owner : ω) (name : String) (slot : Nat) (member : α) : Prop :=
  ∃ original, member = stamp owner name slot original

/-- The change leaves members with what they are stamped with. -/
def Kept (change : α → α) : Prop :=
  ∀ (owner : ω) name slot (member : α), Carries owner name slot member →
    Carries owner name slot (change member)

end Stamped

/-! ## Calls -/

/-- What is done to a roster; changes are those of members where they stand. -/
inductive RosterCall (α : Type) where
  | insert (name : String) (member : α)
  | clear
  | edit (name : String) (change : α → α)
  | editAt (slot : Nat) (change : α → α)
  | editEach (change : Nat → α → α)

namespace RosterCall

def clears : RosterCall α → Bool
  | clear => true
  | _ => false

/-- The name under which a member is entered. -/
def inserted? : RosterCall α → Option String
  | insert name _ => some name
  | _ => none

def Keeps : RosterCall α → Prop
  | edit _ change => Stamped.Kept change
  | editAt _ change => Stamped.Kept change
  | editEach change => ∀ slot, Stamped.Kept (change slot)
  | _ => True

/-- What is done to the member of a name in its slot. -/
def effect (name : String) (slot : Nat) (member : α) : RosterCall α → α
  | edit other change => if other = name then change member else member
  | editAt other change => if other = slot then change member else member
  | editEach change => change slot member
  | insert _ _ => member
  | clear => member

/-- What becomes of the names of the members. -/
def namesAfter (names : List String) : RosterCall α → List String
  | clear => []
  | insert name _ => if name ∈ names then names else names ++ [name]
  | edit _ _ => names
  | editAt _ _ => names
  | editEach _ => names

/-- The names of the members entered since the last clearing, in the order they first came. -/
def entered (calls : List (RosterCall α)) : List String :=
  firstOccurrences ((calls.rtakeWhile fun call => !call.clears).filterMap inserted?)

/-- The member was the last to be entered under the name since the last clearing. -/
def LastInserted (calls : List (RosterCall α)) (name : String) (member : α)
    (later : List (RosterCall α)) : Prop :=
  LastAmong (fun call => call.clears = false ∧ call.inserted? ≠ some name) calls
    (insert name member) later

end RosterCall

namespace Roster

def call (roster : Roster α ω) : RosterCall α → Roster α ω
  | .insert name member => (roster.insert name member).1
  | .clear => roster.clear
  | .edit name change =>
      match roster.slotOf? name with
      | some slot => roster.modifyAt slot change
      | none => roster
  | .editAt slot change => roster.modifyAt slot change
  | .editEach change => roster.modifyEach change

def run (roster : Roster α ω) (calls : List (RosterCall α)) : Roster α ω :=
  calls.foldl call roster

end Roster

/-! ## Names -/

theorem firstOccurrences_concat {β : Type} [DecidableEq β] (list : List β) (last : β) :
    firstOccurrences (list ++ [last]) =
      if last ∈ list then firstOccurrences list else firstOccurrences list ++ [last] := by
  induction list with
  | nil => rfl
  | cons first rest inductionHypothesis =>
      rw [List.cons_append, firstOccurrences, firstOccurrences, inductionHypothesis]
      by_cases same : last = first
      · subst same
        by_cases inRest : last ∈ rest <;> simp [inRest]
      · by_cases inRest : last ∈ rest <;> simp [inRest, same]

namespace RosterCall

omit [Stamped α ω] in
theorem entered_concat (calls : List (RosterCall α)) (last : RosterCall α) :
    entered (calls ++ [last]) = namesAfter (entered calls) last := by
  simp only [entered, List.rtakeWhile_concat]
  cases last with
  | insert name member =>
      simp [namesAfter, clears, inserted?, List.filterMap_append, firstOccurrences_concat,
        mem_firstOccurrences]
  | clear => simp [namesAfter, clears, firstOccurrences]
  | _ => simp [namesAfter, clears, inserted?, List.filterMap_append, List.filterMap_cons]

omit [Stamped α ω] in
theorem lastInserted_concat_iff (calls : List (RosterCall α)) (last : RosterCall α) (name : String)
    (member : α) (later : List (RosterCall α)) :
    LastInserted (calls ++ [last]) name member later ↔
      last = insert name member ∧ later = [] ∨
        ∃ others, later = others ++ [last] ∧ (last.clears = false ∧ last.inserted? ≠ some name) ∧
          LastInserted calls name member others :=
  lastAmong_concat_iff ..

omit [Stamped α ω] in
/-- A name was entered since the last clearing if some member was the last to be. -/
theorem mem_entered_iff (calls : List (RosterCall α)) (name : String) :
    name ∈ entered calls ↔ ∃ member later, LastInserted calls name member later := by
  induction calls using List.reverseRecOn with
  | nil => simp [entered, firstOccurrences, LastInserted, not_lastAmong_nil]
  | append_singleton calls last inductionHypothesis =>
      rw [entered_concat]
      simp only [lastInserted_concat_iff]
      cases last with
      | insert other member =>
          by_cases same : other = name
          · subst same
            refine iff_of_true ?_ ⟨member, [], .inl ⟨rfl, rfl⟩⟩
            by_cases known : other ∈ entered calls <;> simp [namesAfter, known]
          · have others : name ∈ namesAfter (entered calls) (insert other member) ↔
                name ∈ entered calls := by
              by_cases known : other ∈ entered calls <;> simp [namesAfter, known, Ne.symm same]
            simp [others, inductionHypothesis, clears, inserted?, same]
      | clear => simp [namesAfter, clears]
      | _ => simp [namesAfter, inductionHypothesis, clears, inserted?]

end RosterCall

namespace Roster

omit [Stamped α ω] in
@[simp] theorem names_modifyEach (roster : Roster α ω) (change : Nat → α → α) :
    (roster.modifyEach change).names = roster.names :=
  names_eq_of_slotOf? fun slot name => roster.getElem?_names_iff slot name

theorem owner_call (roster : Roster α ω) (call : RosterCall α) :
    (roster.call call).owner = roster.owner := by
  cases call with
  | insert name member => exact owner_insert roster name member
  | edit name change =>
      rw [Roster.call]
      split <;> rfl
  | _ => rfl

/-- A call is seen from the names by the one that it enters, and by clearing. -/
theorem names_call (roster : Roster α ω) (call : RosterCall α) :
    (roster.call call).names = RosterCall.namesAfter roster.names call := by
  cases call with
  | insert name member =>
      rw [Roster.call]
      cases known : roster.slotOf? name with
      | none =>
          have new := (roster.slotOf?_eq_none_iff name).mp known
          rw [names_insert_of_new member known]
          exact (if_neg new).symm
      | some slot =>
          have isName := List.mem_of_getElem? ((roster.getElem?_names_iff slot name).mpr known)
          rw [names_insert_of_known member known]
          exact (if_pos isName).symm
  | clear => rfl
  | edit name change =>
      rw [Roster.call]
      split
      · exact names_modifyAt ..
      · rfl
  | editAt slot change => exact names_modifyAt ..
  | editEach change => exact names_modifyEach ..

theorem run_concat (roster : Roster α ω) (calls : List (RosterCall α)) (last : RosterCall α) :
    roster.run (calls ++ [last]) = (roster.run calls).call last :=
  List.foldl_concat ..

/-- The names are those that were entered since the last clearing. -/
theorem names_run (owner : ω) (calls : List (RosterCall α)) :
    ((empty owner).run calls).names = RosterCall.entered calls := by
  induction calls using List.reverseRecOn with
  | nil => rfl
  | append_singleton calls last inductionHypothesis =>
      rw [run_concat, names_call, RosterCall.entered_concat, inductionHypothesis]

theorem owner_run (roster : Roster α ω) (calls : List (RosterCall α)) :
    (roster.run calls).owner = roster.owner := by
  induction calls using List.reverseRecOn with
  | nil => rfl
  | append_singleton calls last inductionHypothesis =>
      rw [run_concat, owner_call, inductionHypothesis]

/-! ## Members -/

/-- The name leads to the slot, and the member is there. -/
def Stands (roster : Roster α ω) (name : String) (slot : Nat) (member : α) : Prop :=
  roster.slotOf? name = some slot ∧ roster.at? slot = some member

theorem stands_insert (roster : Roster α ω) (name : String) (member : α) :
    ∃ slot, (roster.call (.insert name member)).Stands name slot
      (Stamped.stamp roster.owner name slot member) := by
  refine ⟨(roster.insert name member).2, slotOf?_insert .., ?_⟩
  rw [call, at?_insert, if_pos rfl]

theorem names_call_prefix (roster : Roster α ω) {call : RosterCall α}
    (unclear : call.clears = false) : roster.names <+: (roster.call call).names := by
  cases call with
  | insert name member => exact names_insert roster name member
  | clear => cases unclear
  | _ => exact (names_call roster _).symm ▸ List.prefix_rfl

/-- What neither clears nor enters under the name leaves it where it is. -/
theorem Stands.call {roster : Roster α ω} {name : String} {slot : Nat} {member : α}
    (stands : roster.Stands name slot member) {call : RosterCall α} (unclear : call.clears = false)
    (other : call.inserted? ≠ some name) :
    (roster.call call).Stands name slot (RosterCall.effect name slot member call) := by
  obtain ⟨leads, found⟩ := stands
  have stays : (roster.call call).slotOf? name = some slot := by
    rw [← getElem?_names_iff] at leads ⊢
    obtain ⟨added, same⟩ := roster.names_call_prefix unclear
    exact same ▸ (List.getElem?_append_left (List.getElem?_eq_some_iff.mp leads).1).trans leads
  refine ⟨stays, ?_⟩
  cases call with
  | insert another added =>
      have elsewhere : slot ≠ (roster.insert another added).2 := by
        rintro rfl
        exact other (congrArg some (eq_of_slotOf? (slotOf?_insert ..) stays))
      rw [Roster.call, at?_insert, if_neg elsewhere, found, RosterCall.effect]
  | clear => cases unclear
  | edit another change =>
      rw [Roster.call, RosterCall.effect]
      split
      · rename_i taken isTaken
        rw [at?_modifyAt, found]
        by_cases same : another = name
        · subst same
          rw [if_pos rfl, if_pos (Option.some.inj (leads.symm.trans isTaken)), Option.map_some]
        · have elsewhere : slot ≠ taken := by
            rintro rfl
            exact same (eq_of_slotOf? isTaken leads)
          rw [if_neg same, if_neg elsewhere]
      · rename_i absent
        have different : another ≠ name := by
          rintro rfl
          cases absent.symm.trans leads
        rw [if_neg different, found]
  | editAt another change =>
      rw [Roster.call, at?_modifyAt, found, RosterCall.effect]
      by_cases same : slot = another
      · rw [if_pos same, if_pos same.symm, Option.map_some]
      · rw [if_neg same, if_neg (Ne.symm same)]
  | editEach change =>
      rw [Roster.call, at?_modifyEach, found, RosterCall.effect, Option.map_some]

/-- Under a name is what was entered for it last, with the changes since. -/
theorem stands_run (owner : ω) {calls : List (RosterCall α)} {name : String} {member : α}
    {later : List (RosterCall α)} (inserted : RosterCall.LastInserted calls name member later) :
    ∃ slot, ((empty owner).run calls).Stands name slot
      (later.foldl (RosterCall.effect name slot) (Stamped.stamp owner name slot member)) := by
  -- From the end: the last call enters the name, or it leaves what the calls before it came to.
  induction calls using List.reverseRecOn generalizing later with
  | nil => exact absurd inserted (not_lastAmong_nil _ _)
  | append_singleton calls last inductionHypothesis =>
      rw [run_concat]
      rcases (RosterCall.lastInserted_concat_iff ..).mp inserted with
        ⟨rfl, rfl⟩ | ⟨others, rfl, ⟨unclear, other⟩, earlier⟩
      · have stands := stands_insert ((empty owner).run calls) name member
        rw [owner_run] at stands
        exact stands
      · obtain ⟨slot, stands⟩ := inductionHypothesis earlier
        refine ⟨slot, ?_⟩
        rw [List.foldl_concat]
        exact stands.call unclear other

theorem carries_effect {owner : ω} {name : String} {slot : Nat} {member : α}
    (carries : Stamped.Carries owner name slot member) {call : RosterCall α} (keeps : call.Keeps) :
    Stamped.Carries owner name slot (RosterCall.effect name slot member call) := by
  cases call with
  | insert another added => exact carries
  | clear => exact carries
  | edit another change =>
      rw [RosterCall.effect]
      split
      · exact keeps owner name slot member carries
      · exact carries
  | editAt another change =>
      rw [RosterCall.effect]
      split
      · exact keeps owner name slot member carries
      · exact carries
  | editEach change => exact keeps slot owner name slot member carries

theorem carries_effects {owner : ω} {name : String} {slot : Nat} {member : α}
    (carries : Stamped.Carries owner name slot member) {calls : List (RosterCall α)}
    (keeps : ∀ call ∈ calls, call.Keeps) :
    Stamped.Carries owner name slot (calls.foldl (RosterCall.effect name slot) member) := by
  induction calls generalizing member with
  | nil => exact carries
  | cons call rest inductionHypothesis =>
      obtain ⟨here, others⟩ := List.forall_mem_cons.mp keeps
      exact inductionHypothesis (carries_effect carries here) others

omit [Stamped α ω] in
theorem isSome_find? (roster : Roster α ω) (name : String) :
    (roster.find? name).isSome = roster.contains name := by
  rw [find?, contains]
  cases known : roster.slotOf? name with
  | none => rfl
  | some slot => exact (roster.isSome_at?_iff slot).mpr (lt_size_of_slotOf? known)

/-- After any calls the names entered since the last clearing stand for the slots, in the order in
which they first came.  In the slot of each name is the member that was entered under it last, with
the changes made since, and it carries the owner, the name and the slot. -/
theorem run_indexed (owner : ω) (calls : List (RosterCall α))
    (keeps : ∀ call ∈ calls, call.Keeps) :
    let roster := (empty owner).run calls
    let names := RosterCall.entered calls
    roster.owner = owner ∧ names.Nodup ∧ roster.size = names.length ∧
      (∀ name slot, roster.slotOf? name = some slot ↔ names[slot]? = some name) ∧
      (∀ name, roster.contains name = true ↔
        ∃ original later, RosterCall.LastInserted calls name original later) ∧
      (∀ name, (roster.find? name).isSome = roster.contains name) ∧
      ∀ name original later, RosterCall.LastInserted calls name original later →
        ∃ slot member, roster.slotOf? name = some slot ∧ roster.at? slot = some member ∧
          roster.find? name = some member ∧ Stamped.Carries owner name slot member ∧
          member = later.foldl (RosterCall.effect name slot)
            (Stamped.stamp owner name slot original) := by
  intro roster names
  have same : roster.names = names := names_run owner calls
  refine ⟨owner_run _ calls, nodup_firstOccurrences _, ?_, fun name slot => ?_, fun name => ?_,
    roster.isSome_find?, fun name original later inserted => ?_⟩
  · rw [← same, length_names]
  · rw [← same, getElem?_names_iff]
  · rw [← RosterCall.mem_entered_iff, contains, ← Option.ne_none_iff_isSome, Ne,
      slotOf?_eq_none_iff, not_not, same]
  · obtain ⟨slot, leads, found⟩ := stands_run owner inserted
    obtain ⟨earlier, rfl, -⟩ := inserted
    refine ⟨slot, _, leads, found, ?_, carries_effects ⟨original, rfl⟩ fun call member => ?_, rfl⟩
    · rw [find?, leads, Option.bind_some, found]
    · exact keeps call (by simp [member])

/-- A title that comes again after a property of another name, and is changed in two ways; what
came before was cleared. -/
def titleRenewed : List (RosterCall Property) :=
  [.insert "old" (.ofType .any), .clear, .insert "title" (.ofType .any),
    .edit "title" fun property => { property with required := true },
    .insert "needs" (.ofType (.node none)), .insert "title" (.ofType (.primitive .text)),
    .editAt 0 fun property => { property with list := true },
    .editEach fun slot property =>
      { property with description := if slot = 0 then "first" else "" }]

theorem run_indexed_titleRenewed :
    let properties := (empty (⟨3⟩ : TypeId)).run titleRenewed
    (∀ call ∈ titleRenewed, call.Keeps) ∧ RosterCall.entered titleRenewed = ["title", "needs"] ∧
      properties.slotOf? "needs" = some 1 ∧
      properties.find? "title" =
        some ⟨"title", ⟨3⟩, 0, .primitive .text, false, true, none, "first"⟩ := by
  intro properties
  have entered : RosterCall.entered titleRenewed = ["title", "needs"] := by
    cbv
  have keeps : ∀ call ∈ titleRenewed, call.Keeps := by
    simp only [titleRenewed, List.forall_mem_cons, RosterCall.Keeps, Stamped.Kept]
    refine ⟨trivial, trivial, trivial, ?_, trivial, trivial, ?_, fun slot => ?_, by simp⟩ <;>
      rintro owner name place _ ⟨original, rfl⟩
    · exact ⟨{ original with required := true }, rfl⟩
    · exact ⟨{ original with list := true }, rfl⟩
    · exact ⟨{ original with description := if slot = 0 then "first" else "" }, rfl⟩
  obtain ⟨-, -, -, leads, -, -, last⟩ := run_indexed (⟨3⟩ : TypeId) titleRenewed keeps
  have inserted : RosterCall.LastInserted titleRenewed "title" (.ofType (.primitive .text))
      (titleRenewed.drop 6) :=
    ⟨titleRenewed.take 5, rfl, by simp [titleRenewed, RosterCall.clears, RosterCall.inserted?]⟩
  obtain ⟨slot, member, isSlot, -, found, -, same⟩ := last _ _ _ inserted
  have isFirst : properties.slotOf? "title" = some 0 := (leads "title" 0).mpr (by rw [entered]; rfl)
  cases isSlot.symm.trans isFirst
  exact ⟨keeps, entered, (leads "needs" 1).mpr (by rw [entered]; rfl), found.trans (same ▸ rfl)⟩

end Roster

end LifecycleGraph
