import Mathlib.Data.Finset.Card
import Mathlib.Data.List.Nodup
import Mathlib.Tactic.Common

namespace MockOS.Lib

variable {Key Value : Type} [DecidableEq Key] {free name other : Key} {value init : Value}
  {slots used entries : List (Key × Value)} {vacant : List Value}

/-- The first slot of this name gets a new content. -/
def overwrite (name : Key) (slot : Key × Value) : List (Key × Value) → Option (List (Key × Value))
  | [] => none
  | head :: rest => if head.1 = name then some (slot :: rest) else (overwrite name slot rest).map (head :: ·)

/-- A store of fixed size, in which the name `free` marks the slots that are not in use. -/
def assign (free name : Key) (value : Value) (slots : List (Key × Value)) : List (Key × Value) :=
  match overwrite name (name, value) slots with
  | some slots => slots
  | none => (overwrite free (name, value) slots).getD slots

/-- The value of the first slot of this name. -/
def fetch (name : Key) (slots : List (Key × Value)) : Option Value :=
  (slots.find? fun slot => decide (slot.1 = name)).map Prod.snd

@[simp] theorem fetch_nil : fetch name ([] : List (Key × Value)) = none := rfl

@[simp] theorem fetch_cons (slot : Key × Value) :
    fetch name (slot :: slots) = if slot.1 = name then some slot.2 else fetch name slots := by
  by_cases same : slot.1 = name <;> simp [fetch, same]

theorem fetch_append : fetch name (used ++ slots) = (fetch name used).or (fetch name slots) := by
  induction used with
  | nil => rfl
  | cons slot rest ih => by_cases same : slot.1 = name <;> simp [same, ih]

theorem fetch_isSome_iff : (fetch name slots).isSome ↔ name ∈ slots.map Prod.fst := by
  induction slots with
  | nil => simp
  | cons slot rest ih =>
      by_cases same : slot.1 = name
      · simp [same]
      · rw [fetch_cons, if_neg same, ih, List.map_cons, List.mem_cons, or_iff_right (Ne.symm same)]

theorem fetch_eq_none_iff : fetch name slots = none ↔ name ∉ slots.map Prod.fst := by
  rw [← fetch_isSome_iff, Option.not_isSome_iff_eq_none]

theorem overwrite_eq_none (absent : name ∉ slots.map Prod.fst) (slot : Key × Value) : overwrite name slot slots = none := by
  induction slots with
  | nil => rfl
  | cons head rest ih =>
      rw [List.map_cons, List.mem_cons, not_or] at absent
      rw [overwrite, if_neg (Ne.symm absent.1), ih absent.2]
      rfl

theorem overwrite_append (absent : name ∉ used.map Prod.fst) (slot : Key × Value) (slots : List (Key × Value)) :
    overwrite name slot (used ++ slots) = (overwrite name slot slots).map (used ++ ·) := by
  induction used with
  | nil => simp
  | cons head rest ih =>
      rw [List.map_cons, List.mem_cons, not_or] at absent
      rw [List.cons_append, overwrite, if_neg (Ne.symm absent.1), ih absent.2, Option.map_map]
      rfl

/-- A name in use keeps its slot. -/
theorem overwrite_present (present : name ∈ used.map Prod.fst) (value : Value) (slots : List (Key × Value)) :
    ∃ next, overwrite name (name, value) (used ++ slots) = some (next ++ slots) ∧
      next.map Prod.fst = used.map Prod.fst ∧
      ∀ other, fetch other next = if name = other then some value else fetch other used := by
  induction used with
  | nil => cases present
  | cons head rest ih =>
      by_cases same : head.1 = name
      · refine ⟨(name, value) :: rest, by rw [List.cons_append, overwrite, if_pos same]; rfl, by simp [same], fun other => ?_⟩
        by_cases here : name = other <;> simp [same, here]
      · rw [List.map_cons, List.mem_cons] at present
        obtain ⟨next, writes, names, reads⟩ := ih (present.resolve_left (Ne.symm same))
        refine ⟨head :: next, by rw [List.cons_append, overwrite, if_neg same, writes]; rfl, by simp [names], fun other => ?_⟩
        rw [fetch_cons, fetch_cons, reads]
        by_cases here : name = other
        · rw [if_pos here, if_pos here, if_neg (here ▸ same)]
        · rw [if_neg here, if_neg here]

/-- The same on an array of which some positions make up the store. -/
theorem overwrite_map {positions : List Nat} (distinct : positions.Nodup) (array : Nat → Key × Value) (slot : Key × Value) :
    overwrite name slot (positions.map array) = (positions.find? fun pos => decide ((array pos).1 = name)).map fun pos =>
      positions.map (Function.update array pos slot) := by
  induction positions with
  | nil => rfl
  | cons head rest ih =>
      obtain ⟨fresh, distinct⟩ := List.nodup_cons.mp distinct
      rw [List.map_cons, overwrite, List.find?_cons]
      by_cases same : (array head).1 = name
      · have kept : rest.map (Function.update array head slot) = rest.map array :=
          List.map_congr_left fun pos inside => Function.update_of_ne (ne_of_mem_of_not_mem inside fresh) _ _
        simp [same, kept]
      · rw [if_neg same, ih distinct]
        simp only [same, decide_false, Option.map_map]
        refine Option.map_congr fun pos found => ?_
        have apart : head ≠ pos := Ne.symm (ne_of_mem_of_not_mem (List.mem_of_find?_eq_some found) fresh)
        simp [Function.update_of_ne apart]

/-- An assignment finds its slot by two searches. -/
theorem assign_map {positions : List Nat} (distinct : positions.Nodup) (array : Nat → Key × Value) :
    assign free name value (positions.map array) =
      match positions.find? fun pos => decide ((array pos).1 = name) with
      | some pos => positions.map (Function.update array pos (name, value))
      | none => match positions.find? fun pos => decide ((array pos).1 = free) with
        | some pos => positions.map (Function.update array pos (name, value))
        | none => positions.map array := by
  rw [assign, overwrite_map distinct, overwrite_map distinct]
  cases positions.find? fun pos => decide ((array pos).1 = name) with
  | some pos => rfl
  | none => cases positions.find? fun pos => decide ((array pos).1 = free) <;> rfl

theorem fetch_map (positions : List Nat) (array : Nat → Key × Value) :
    fetch name (positions.map array) = (positions.find? fun pos => decide ((array pos).1 = name)).map fun pos => (array pos).2 := by
  rw [fetch, List.find?_map, Option.map_map]
  rfl

/-- What the first free slot holds after these assignments, the latest one first. -/
def spareValue (free : Key) (init : Value) : List (Key × Value) → Value
  | [] => init
  | (name, value) :: earlier =>
      if name = free then value
      else if name ∈ earlier.map Prod.fst then spareValue free init earlier else init

theorem spareValue_absent {log : List (Key × Value)} (absent : free ∉ log.map Prod.fst) : spareValue free init log = init := by
  induction log with
  | nil => rfl
  | cons entry earlier ih =>
      rw [List.map_cons, List.mem_cons, not_or] at absent
      rw [spareValue, if_neg (Ne.symm absent.1), ih absent.2, ite_self]

/-- The last assignment to a name in a log. -/
theorem exists_last {log : List (Key × Value)} (present : name ∈ log.map Prod.fst) :
    ∃ later value earlier, log = later ++ (name, value) :: earlier ∧ name ∉ later.map Prod.fst := by
  induction log with
  | nil => cases present
  | cons entry log ih =>
      by_cases here : entry.1 = name
      · exact ⟨[], entry.2, log, by rw [← here]; rfl, by simp⟩
      · obtain ⟨later, value, earlier, rfl, absent⟩ := ih ((List.mem_cons.mp present).resolve_left (Ne.symm here))
        exact ⟨entry :: later, value, earlier, rfl, by simpa [Ne.symm here] using absent⟩

theorem fetch_last {later earlier : List (Key × Value)} (absent : name ∉ later.map Prod.fst) :
    fetch name (later ++ (name, value) :: earlier) = some value := by
  rw [fetch_append, fetch_eq_none_iff.mpr absent, fetch_cons, if_pos rfl, Option.none_or]

/-- A name that is new after the last assignment to `free` takes its slot. -/
theorem spareValue_append {later earlier : List (Key × Value)} (absent : free ∉ later.map Prod.fst) :
    spareValue free init (later ++ (free, value) :: earlier) =
      if ∀ name ∈ later.map Prod.fst, name ∈ earlier.map Prod.fst then value else init := by
  induction later with
  | nil => simp [spareValue]
  | cons entry later ih =>
      rw [List.map_cons, List.mem_cons, not_or] at absent
      rw [List.cons_append, spareValue, if_neg (Ne.symm absent.1), ih absent.2]
      have inList : entry.1 ∈ (later ++ (free, value) :: earlier).map Prod.fst ↔
          entry.1 ∈ later.map Prod.fst ∨ entry.1 ∈ earlier.map Prod.fst := by
        rw [List.map_append, List.map_cons, List.mem_append, List.mem_cons, or_iff_right (Ne.symm absent.1 : ¬ entry.1 = free)]
      by_cases all : ∀ name ∈ (entry :: later).map Prod.fst, name ∈ earlier.map Prod.fst
      · obtain ⟨known, rest⟩ := List.forall_mem_cons.mp all
        rw [if_pos all, if_pos (inList.mpr (.inr known)), if_pos rest]
      · rw [if_neg all]
        split
        case isTrue inside =>
          refine if_neg fun rest => all (List.forall_mem_cons.mpr ⟨?_, rest⟩)
          exact (inList.mp inside).elim (rest _) id
        case isFalse => rfl

/-- The slots in use come first, under the names assigned, and the free ones behind them. -/
structure Stores (free : Key) (init : Value) (size : Nat) (log slots used : List (Key × Value)) (vacant : List Value) :
    Prop where
  parts : slots = used ++ vacant.map (free, ·)
  distinct : (used.map Prod.fst).Nodup
  names : ∀ name, name ∈ used.map Prod.fst ↔ name ≠ free ∧ name ∈ log.map Prod.fst
  size : used.length + vacant.length = size
  values : ∀ name ≠ free, fetch name used = fetch name log
  spare : ∀ value ∈ vacant.head?, value = spareValue free init log
  unused : ∀ value ∈ vacant.tail, value = init

theorem stores_init (free : Key) (init : Value) (size : Nat) :
    Stores free init size [] (List.replicate size (free, init)) [] (List.replicate size init) where
  parts := by simp
  distinct := List.nodup_nil
  names := by simp
  size := by simp
  values := fun _ _ => rfl
  spare := by
    intro value first
    exact List.eq_of_mem_replicate (List.mem_of_mem_head? first)
  unused := fun value inside => List.eq_of_mem_replicate (List.mem_of_mem_tail inside)

namespace Stores

variable {size : Nat} {log : List (Key × Value)}

/-- As many slots are in use as there are names apart from `free`. -/
theorem length_used (stores : Stores free init size log slots used vacant) :
    used.length = ((log.map Prod.fst).toFinset.erase free).card := by
  have same : (used.map Prod.fst).toFinset = (log.map Prod.fst).toFinset.erase free := by
    ext name
    rw [List.mem_toFinset, stores.names, Finset.mem_erase, List.mem_toFinset]
  rw [← same, List.toFinset_card_of_nodup stores.distinct, List.length_map]

/-- There is a free slot left for a new name and for `free` itself. -/
theorem vacant_ne_nil (stores : Stores free init size log slots used vacant)
    (few : (((name, value) :: log).map Prod.fst).toFinset.card ≤ size)
    (fresh : name = free ∨ name ∉ log.map Prod.fst) : vacant ≠ [] := by
  rintro rfl
  have full := stores.size
  rw [List.length_nil, Nat.add_zero, stores.length_used] at full
  have strict : (log.map Prod.fst).toFinset.erase free ⊂ ((((name, value) :: log).map Prod.fst).toFinset) := by
    rw [Finset.ssubset_iff_of_subset]
    · refine ⟨name, by simp, ?_⟩
      rw [Finset.mem_erase, List.mem_toFinset, not_and]
      rcases fresh with rfl | absent
      · exact fun apart => absurd rfl apart
      · exact fun _ => absent
    · intro other inside
      rw [List.map_cons, List.toFinset_cons]
      exact Finset.mem_insert_of_mem (Finset.mem_of_mem_erase inside)
  have := Finset.card_lt_card strict
  omega

/-- An assignment keeps the shape of the store. -/
theorem assign (stores : Stores free init size log slots used vacant) (name : Key) (value : Value)
    (few : (((name, value) :: log).map Prod.fst).toFinset.card ≤ size) :
    ∃ used vacant, Stores free init size ((name, value) :: log) (Lib.assign free name value slots) used vacant := by
  obtain rfl := stores.parts
  by_cases isFree : name = free
  · subst isFree
    obtain ⟨head, rest, rfl⟩ := List.exists_cons_of_ne_nil (stores.vacant_ne_nil few (.inl rfl))
    have absent : name ∉ used.map Prod.fst := fun inside => ((stores.names name).mp inside).1 rfl
    have result : Lib.assign name name value (used ++ (head :: rest).map (name, ·)) =
        used ++ (value :: rest).map (name, ·) := by
      rw [Lib.assign, overwrite_append absent]
      simp [overwrite]
    refine ⟨used, value :: rest, result, stores.distinct, fun other => ?_, stores.size, fun other apart => ?_, ?_, stores.unused⟩
    · rw [stores.names, List.map_cons, List.mem_cons]
      exact and_congr_right fun apart => (or_iff_right apart).symm
    · rw [stores.values other apart, fetch_cons, if_neg (Ne.symm apart)]
    · simp [spareValue]
  · by_cases known : name ∈ log.map Prod.fst
    · obtain ⟨next, writes, names, reads⟩ :=
        overwrite_present ((stores.names name).mpr ⟨isFree, known⟩) value (vacant.map (free, ·))
      have result : Lib.assign free name value (used ++ vacant.map (free, ·)) = next ++ vacant.map (free, ·) := by
        rw [Lib.assign, writes]
      have sizes : next.length = used.length := by simpa using congrArg List.length names
      refine ⟨next, vacant, result, names ▸ stores.distinct, fun other => ?_, sizes ▸ stores.size, fun other apart => ?_,
        fun spare first => ?_, stores.unused⟩
      · rw [names, stores.names, List.map_cons, List.mem_cons]
        refine and_congr_right fun _ => ⟨.inr, ?_⟩
        rintro (rfl | inside)
        · exact known
        · exact inside
      · rw [reads, fetch_cons, stores.values other apart]
      · rw [stores.spare spare first, spareValue, if_neg isFree, if_pos known]
    · obtain ⟨head, rest, rfl⟩ := List.exists_cons_of_ne_nil (stores.vacant_ne_nil few (.inr known))
      have absent : name ∉ used.map Prod.fst := fun inside => known ((stores.names name).mp inside).2
      have freeAbsent : free ∉ used.map Prod.fst := fun inside => ((stores.names free).mp inside).1 rfl
      have result : Lib.assign free name value (used ++ (head :: rest).map (free, ·)) =
          (used ++ [(name, value)]) ++ rest.map (free, ·) := by
        have nowhere : name ∉ ((head :: rest).map (free, ·)).map Prod.fst := by
          intro inside
          rw [List.map_map, List.mem_map] at inside
          obtain ⟨_, _, same⟩ := inside
          exact isFree same.symm
        rw [Lib.assign, overwrite_append absent, overwrite_eq_none nowhere, overwrite_append freeAbsent]
        simp [overwrite]
      refine ⟨used ++ [(name, value)], rest, result, ?_, fun other => ?_, ?_, fun other apart => ?_, fun spare first => ?_,
        fun spare inside => stores.unused spare (List.mem_of_mem_tail inside)⟩
      · rw [List.map_append, List.nodup_append]
        refine ⟨stores.distinct, List.nodup_singleton _, fun first inside second last => ?_⟩
        rw [List.map_singleton, List.mem_singleton] at last
        rintro rfl
        rw [last] at inside
        exact absent inside
      · rw [List.map_append, List.mem_append, stores.names, List.map_singleton, List.mem_singleton, List.map_cons, List.mem_cons]
        constructor
        · rintro (⟨apart, inside⟩ | rfl)
          · exact ⟨apart, .inr inside⟩
          · exact ⟨isFree, .inl rfl⟩
        · rintro ⟨apart, rfl | inside⟩
          · exact .inr rfl
          · exact .inl ⟨apart, inside⟩
      · have sizes := stores.size
        simp only [List.length_append, List.length_cons, List.length_nil] at sizes ⊢
        omega
      · rw [fetch_append, stores.values other apart, fetch_cons, fetch_cons, fetch_nil]
        by_cases same : name = other
        · rw [if_pos same, if_pos same, fetch_eq_none_iff.mpr (same ▸ known)]
          rfl
        · rw [if_neg same, if_neg same, Option.or_none]
      · rw [spareValue, if_neg isFree, if_neg known]
        exact stores.unused spare (List.mem_of_mem_head? first)

/-- If `free` itself has been assigned, a free slot is left. -/
theorem vacant_ne_nil_of_mem (stores : Stores free init size log slots used vacant)
    (few : (log.map Prod.fst).toFinset.card ≤ size) (present : free ∈ log.map Prod.fst) : vacant ≠ [] := by
  rintro rfl
  have full := stores.size
  have less := Finset.card_erase_lt_of_mem (List.mem_toFinset.mpr present)
  rw [List.length_nil, Nat.add_zero, stores.length_used] at full
  omega

/-- What the store gives for a name: the value assigned last, and the content of the first free slot for `free`. -/
theorem fetch_slots (stores : Stores free init size log slots used vacant) :
    (∀ name ≠ free, fetch name slots = fetch name log) ∧ fetch free slots = vacant.head? := by
  obtain rfl := stores.parts
  have freeAbsent : fetch free used = none := fetch_eq_none_iff.mpr fun inside => ((stores.names free).mp inside).1 rfl
  constructor
  · intro name apart
    have nowhere : fetch name (vacant.map (free, ·)) = none := by
      rw [fetch_eq_none_iff, List.map_map, List.mem_map]
      rintro ⟨_, _, same⟩
      exact apart same.symm
    rw [fetch_append, nowhere, Option.or_none, stores.values name apart]
  · rw [fetch_append, freeAbsent, Option.none_or]
    cases vacant with
    | nil => rfl
    | cons head rest => simp

end Stores

/-- An assignment, or a reset that frees every slot. -/
inductive StoreCommand (Key Value : Type) where
  | assign (name : Key) (value : Value)
  | reset

def StoreCommand.run (free : Key) (init : Value) (slots : List (Key × Value)) : StoreCommand Key Value → List (Key × Value)
  | .assign name value => Lib.assign free name value slots
  | .reset => List.replicate slots.length (free, init)

/-- The assignments since the last reset, the latest one first. -/
def sinceReset (commands : List (StoreCommand Key Value)) : List (Key × Value) :=
  commands.foldl (fun log command => match command with
    | .assign name value => (name, value) :: log
    | .reset => []) []

omit [DecidableEq Key] in
theorem sinceReset_append (commands : List (StoreCommand Key Value)) (command : StoreCommand Key Value) :
    sinceReset (commands ++ [command]) = match command with
      | .assign name value => (name, value) :: sinceReset commands
      | .reset => [] := by
  rw [sinceReset, List.foldl_append]
  rfl

/-- At most so many names are assigned between two resets. -/
def NamesWithin (limit : Nat) (commands : List (StoreCommand Key Value)) : Prop :=
  ∀ done, done <+: commands → ((sinceReset done).map Prod.fst).toFinset.card ≤ limit

/-- The names assigned by any of the commands. -/
def assignedNames (commands : List (StoreCommand Key Value)) : List Key :=
  commands.filterMap fun command => match command with
    | .assign name _ => some name
    | .reset => none

omit [DecidableEq Key] in
theorem sinceReset_subset (commands : List (StoreCommand Key Value)) :
    (sinceReset commands).map Prod.fst ⊆ assignedNames commands := by
  induction commands using List.reverseRecOn with
  | nil => simp [sinceReset]
  | append_singleton commands command ih =>
      rw [sinceReset_append, assignedNames, List.filterMap_append]
      cases command with
      | assign name value =>
          rw [List.map_cons, List.cons_subset]
          exact ⟨by simp, fun other inside => List.mem_append_left _ (ih inside)⟩
      | reset => simp

theorem namesWithin_of_card {limit : Nat} {commands : List (StoreCommand Key Value)}
    (few : (assignedNames commands).toFinset.card ≤ limit) : NamesWithin limit commands := by
  rintro done ⟨later, rfl⟩
  refine (Finset.card_le_card fun name inside => ?_).trans few
  rw [List.mem_toFinset] at inside ⊢
  rw [assignedNames, List.filterMap_append]
  exact List.mem_append_left _ (sinceReset_subset done inside)

/-- A store after any commands: the names assigned since the last reset, and the free slots behind them. -/
theorem stores_commands (free : Key) (init : Value) (size : Nat) (commands : List (StoreCommand Key Value))
    (few : NamesWithin size commands) : ∃ used vacant, Stores free init size (sinceReset commands)
      (commands.foldl (StoreCommand.run free init) (List.replicate size (free, init))) used vacant := by
  induction commands using List.reverseRecOn with
  | nil => exact ⟨[], _, stores_init free init size⟩
  | append_singleton commands command ih =>
      obtain ⟨used, vacant, stores⟩ := ih fun done first => few done (first.trans (List.prefix_append _ _))
      rw [List.foldl_append, List.foldl_cons, List.foldl_nil, sinceReset_append]
      cases command with
      | assign name value =>
          have room := few _ (List.prefix_refl _)
          rw [sinceReset_append] at room
          exact stores.assign name value room
      | reset =>
          refine ⟨[], List.replicate size init, ?_⟩
          have length := congrArg List.length stores.parts
          rw [List.length_append, List.length_map, stores.size] at length
          rw [StoreCommand.run, length]
          exact stores_init free init size

end MockOS.Lib
