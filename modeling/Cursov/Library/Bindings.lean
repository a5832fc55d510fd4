import Mathlib.Data.List.AList
import Mathlib.Data.List.Induction

/-!
# Recording bindings one after another

Inserting a list of bindings into a finite map: each key ends with the last
binding made for it, and keys that the list leaves alone keep theirs.
-/

namespace Bindings

universe u v

variable {Key : Type u} {Value : Type v} [DecidableEq Key]

def record (m : AList fun _ : Key => Value) (entries : List (Sigma fun _ : Key => Value)) :
    AList fun _ : Key => Value :=
  entries.foldl (fun m e => m.insert e.1 e.2) m

theorem lookup_record (m : AList fun _ : Key => Value)
    (entries : List (Sigma fun _ : Key => Value)) (k : Key) :
    (record m entries).lookup k = (entries.reverse.dlookup k).or (m.lookup k) := by
  induction entries generalizing m with
  | nil => rfl
  | cons e rest ih =>
    change (record (m.insert e.1 e.2) rest).lookup k = _
    rw [ih, List.reverse_cons, List.dlookup_append, Option.or_assoc]
    congr 1
    by_cases same : k = e.1
    · subst same
      rw [AList.lookup_insert, List.dlookup_cons_eq]
      rfl
    · rw [AList.lookup_insert_ne same, List.dlookup_cons_ne _ _ same]
      rfl

/-- A key that is bound somewhere ends with one of its bindings. -/
theorem exists_lookup_record (m : AList fun _ : Key => Value)
    {entries : List (Sigma fun _ : Key => Value)} {k : Key} (bound : ∃ e ∈ entries, e.1 = k) :
    ∃ v, (record m entries).lookup k = some v ∧
      (⟨k, v⟩ : Sigma fun _ : Key => Value) ∈ entries := by
  obtain ⟨e, mem, rfl⟩ := bound
  have listed : e.1 ∈ entries.reverse.keys :=
    List.mem_keys_of_mem (List.mem_reverse.mpr mem)
  obtain ⟨v, found⟩ := Option.isSome_iff_exists.mp (List.dlookup_isSome.mpr listed)
  refine ⟨v, ?_, List.mem_reverse.mp (List.of_mem_dlookup found)⟩
  rw [lookup_record, found, Option.some_or]

/-- Distinct keys may be recorded in any order. -/
theorem lookup_record_perm {entries : List (Sigma fun _ : Key => Value)}
    {m : AList fun _ : Key => Value} (order : entries.Perm m.entries) (k : Key) :
    (record ∅ entries).lookup k = m.lookup k := by
  have turned : entries.reverse.Perm m.entries := (List.reverse_perm entries).trans order
  have distinct := (List.perm_nodupKeys turned).mpr m.nodupKeys
  rw [lookup_record, List.perm_dlookup k distinct turned, AList.lookup_empty, Option.or_none]
  rfl

universe w

variable {Item : Type w}

/-- Some item binds the key to this value and no later item binds it again. -/
def Prevails (binds : Item → Key → Value → Prop) (items : List Item) (k : Key) (v : Value) : Prop :=
  ∃ before item after, items = before ++ item :: after ∧ binds item k v ∧
    ∀ later ∈ after, ∀ v', ¬ binds later k v'

omit [DecidableEq Key] in
theorem prevails_concat {binds : Item → Key → Value → Prop} {items : List Item} {item : Item}
    {k : Key} {v : Value} :
    Prevails binds (items ++ [item]) k v ↔
      binds item k v ∨ (∀ v', ¬ binds item k v') ∧ Prevails binds items k v := by
  constructor
  · rintro ⟨before, chosen, after, split, made, final⟩
    rcases List.eq_nil_or_concat' after with rfl | ⟨others, last, rfl⟩
    · obtain ⟨_, same⟩ := List.append_inj' split rfl
      cases same
      exact Or.inl made
    · rw [← List.cons_append, ← List.append_assoc] at split
      obtain ⟨rfl, same⟩ := List.append_inj' split rfl
      cases same
      refine Or.inr ⟨final item (by simp), before, chosen, others, rfl, made, ?_⟩
      exact fun later mem => final later (List.mem_append_left _ mem)
  · rintro (made | ⟨silent, before, chosen, after, rfl, made, final⟩)
    · exact ⟨items, item, [], rfl, made, by simp⟩
    · refine ⟨before, chosen, after ++ [item], by simp, made, fun later mem => ?_⟩
      rcases List.mem_append.mp mem with earlier | last
      · exact final later earlier
      · exact List.mem_singleton.mp last ▸ silent

/-- An item that makes at most one binding, and what processing it does to a map. -/
inductive Effect (binds : Item → Key → Value → Prop) (item : Item)
    (m : AList fun _ : Key => Value) : (AList fun _ : Key => Value) → Prop where
  | binds (k : Key) (v : Value) (only : ∀ k' v', binds item k' v' ↔ k' = k ∧ v' = v) :
      Effect binds item m (m.insert k v)
  | silent (none : ∀ k v, ¬ binds item k v) : Effect binds item m m

/-- A loop that records the bindings of its items ends with those that prevail. -/
theorem lookup_foldl_iff {binds : Item → Key → Value → Prop}
    {step : (AList fun _ : Key => Value) → Item → AList fun _ : Key => Value}
    {items : List Item} (effect : ∀ item ∈ items, ∀ m, Effect binds item m (step m item)) {k : Key}
    {v : Value} : (items.foldl step ∅).lookup k = some v ↔ Prevails binds items k v := by
  induction items using List.reverseRecOn with
  | nil =>
    refine iff_of_false (by simp) ?_
    rintro ⟨before, item, after, split, _⟩
    simp at split
  | append_singleton items item ih =>
    have earlier := ih fun other mem => effect other (List.mem_append_left _ mem)
    rw [List.foldl_append, List.foldl_cons, List.foldl_nil, prevails_concat, ← earlier]
    have last := effect item (by simp) (items.foldl step ∅)
    generalize step (items.foldl step ∅) item = result at last
    cases last with
    | binds name value only =>
      by_cases same : k = name
      · subst same
        simp [AList.lookup_insert, only, eq_comm]
      · rw [AList.lookup_insert_ne same]
        simp [only, same]
    | silent none => simp [none]

universe x y

/-- A loop that replaces what is seen by what an item reads ends with the last reading. -/
theorem foldl_last {State : Type x} {Reading : Type y} {step : State → Item → State}
    (view : State → Option Reading) (reads : Item → Option Reading) {items : List Item}
    (each : ∀ item ∈ items, ∀ s, view (step s item) = (reads item).or (view s)) (s : State) :
    view (items.foldl step s) = (items.filterMap reads).getLast?.or (view s) := by
  induction items using List.reverseRecOn with
  | nil => rfl
  | append_singleton items item ih =>
    have earlier := ih fun other mem => each other (List.mem_append_left _ mem)
    have last : ([item].filterMap reads).getLast? = reads item := by
      cases read : reads item with
      | none => rw [List.filterMap_cons_none read]; rfl
      | some r => rw [List.filterMap_cons_some read]; rfl
    rw [List.foldl_append, List.foldl_cons, List.foldl_nil, each item (by simp), earlier,
      List.filterMap_append, List.getLast?_append, last, Option.or_assoc]

end Bindings
