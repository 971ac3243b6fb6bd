import Mathlib.Data.List.Sigma

/-!
# Folds over lists with distinct keys

A loop over the entries of a map whose body changes the observed state only
at the key of the current entry.  For such a loop, the state at a key that no
entry has is unchanged, and the state at the key of an entry is what the body
made of it when it ran on a state that still agreed with the start at that
key.  Both facts are given for the pure `List.foldl` and for `List.foldlM` in
`Except`, where a loop also runs to the end when no step can fail on a state
that agrees with the start at the step's key.  The last section is the plain
invariant rule for both kinds of loop, and the fact that a failing loop which
ran to its end ran a successful step on every item.
-/

namespace KeyedFold

variable {κ σ α ε : Type*} {β : κ → Type*}

/-- The pure loop body `step` changes `observe` only at the key of its entry. -/
def Local (observe : σ → κ → α) (step : σ → Sigma β → σ) : Prop :=
  ∀ state entry key, key ≠ entry.1 → observe (step state entry) key = observe state key

/-- The failing loop body `step` changes `observe` only at the key of its entry. -/
def LocalM (observe : σ → κ → α) (step : σ → Sigma β → Except ε σ) : Prop :=
  ∀ state state' entry key,
    step state entry = .ok state' → key ≠ entry.1 → observe state' key = observe state key

section Pure

variable {observe : σ → κ → α} {step : σ → Sigma β → σ}

theorem foldl_observe_of_notMem (local_ : Local observe step)
    {key : κ} :
    ∀ {entries : List (Sigma β)} (start : σ), key ∉ entries.keys →
      observe (entries.foldl step start) key = observe start key
  | [], _, _ => rfl
  | entry :: entries, start, absent => by
      rw [List.keys_cons, List.mem_cons, not_or] at absent
      rw [List.foldl_cons, foldl_observe_of_notMem local_ _ absent.2]
      exact local_ start entry key absent.1

theorem foldl_observe_of_mem (local_ : Local observe step)
    {key : κ} {value : β key} :
    ∀ {entries : List (Sigma β)} (start : σ), entries.NodupKeys →
      Sigma.mk key value ∈ entries →
        ∃ before, observe before key = observe start key ∧
          observe (entries.foldl step start) key =
            observe (step before ⟨key, value⟩) key
  | [], _, _, member => absurd member List.not_mem_nil
  | entry :: entries, start, distinct, member => by
      rw [List.nodupKeys_cons] at distinct
      rw [List.foldl_cons]
      rcases List.mem_cons.1 member with here | later
      · subst here
        exact ⟨start, rfl, foldl_observe_of_notMem local_ _ distinct.1⟩
      · have other : key ≠ entry.1 := fun same =>
          distinct.1 (same ▸ List.mem_keys_of_mem later)
        obtain ⟨before, agrees, result⟩ :=
          foldl_observe_of_mem local_ _ distinct.2 later
        exact ⟨before, agrees.trans (local_ start entry key other), result⟩

end Pure

section Monadic

variable {observe : σ → κ → α} {step : σ → Sigma β → Except ε σ}

theorem foldlM_observe_of_notMem (local_ : LocalM observe step)
    {key : κ} :
    ∀ {entries : List (Sigma β)} {start finish : σ}, key ∉ entries.keys →
      entries.foldlM step start = .ok finish →
        observe finish key = observe start key
  | [], _, _, _, run => by
      cases run
      rfl
  | entry :: entries, start, finish, absent, run => by
      rw [List.keys_cons, List.mem_cons, not_or] at absent
      rw [List.foldlM_cons] at run
      cases first : step start entry with
      | error failure =>
          rw [first] at run
          cases run
      | ok next =>
          rw [first] at run
          rw [foldlM_observe_of_notMem local_ absent.2 run]
          exact local_ start next entry key first absent.1

theorem foldlM_observe_of_mem (local_ : LocalM observe step)
    {key : κ} {value : β key} :
    ∀ {entries : List (Sigma β)} {start finish : σ}, entries.NodupKeys →
      Sigma.mk key value ∈ entries →
      entries.foldlM step start = .ok finish →
        ∃ before after, observe before key = observe start key ∧
          step before ⟨key, value⟩ = .ok after ∧
          observe finish key = observe after key
  | [], _, _, _, member, _ => absurd member List.not_mem_nil
  | entry :: entries, start, finish, distinct, member, run => by
      rw [List.nodupKeys_cons] at distinct
      rw [List.foldlM_cons] at run
      cases first : step start entry with
      | error failure =>
          rw [first] at run
          cases run
      | ok next =>
          rw [first] at run
          rcases List.mem_cons.1 member with here | later
          · subst here
            exact ⟨start, next, rfl, first,
              foldlM_observe_of_notMem local_ distinct.1 run⟩
          · have other : key ≠ entry.1 := fun same =>
              distinct.1 (same ▸ List.mem_keys_of_mem later)
            obtain ⟨before, after, agrees, stepped, result⟩ :=
              foldlM_observe_of_mem local_ distinct.2 later run
            exact ⟨before, after,
              agrees.trans (local_ start next entry key first other),
              stepped, result⟩

/--
The loop runs to the end when no step fails on a state that agrees with the
start at the key of the step's entry.
-/
theorem foldlM_ok (local_ : LocalM observe step) :
    ∀ {entries : List (Sigma β)} {start : σ}, entries.NodupKeys →
      (∀ state entry, entry ∈ entries →
        observe state entry.1 = observe start entry.1 →
          ∃ state', step state entry = .ok state') →
      ∃ finish, entries.foldlM step start = .ok finish
  | [], start, _, _ => ⟨start, rfl⟩
  | entry :: entries, start, distinct, steps => by
      rw [List.nodupKeys_cons] at distinct
      obtain ⟨next, first⟩ :=
        steps start entry List.mem_cons_self rfl
      have later : ∀ state other, other ∈ entries →
          observe state other.1 = observe next other.1 →
            ∃ state', step state other = .ok state' := by
        intro state other member agrees
        have apart : other.1 ≠ entry.1 := fun same =>
          distinct.1 (same ▸ List.mem_keys_of_mem member)
        exact steps state other (List.mem_cons_of_mem _ member)
          (agrees.trans (local_ start next entry other.1 first apart))
      obtain ⟨finish, rest⟩ := foldlM_ok local_ distinct.2 later
      refine ⟨finish, ?_⟩
      rw [List.foldlM_cons, first]
      exact rest

end Monadic

section Invariant

variable {ι : Type*}

/-- A property that every step of a pure loop keeps holds at its end. -/
theorem foldl_invariant {step : σ → ι → σ} (keep : σ → Prop) :
    ∀ {items : List ι} {start : σ},
      (∀ state item, item ∈ items → keep state → keep (step state item)) →
      keep start → keep (items.foldl step start)
  | [], _, _, holds => holds
  | item :: items, start, kept, holds => by
      rw [List.foldl_cons]
      exact foldl_invariant keep
        (fun state other member => kept state other (List.mem_cons_of_mem _ member))
        (kept start item List.mem_cons_self holds)

/-- A property that every successful step of a failing loop keeps holds at its end. -/
theorem foldlM_invariant {step : σ → ι → Except ε σ} (keep : σ → Prop) :
    ∀ {items : List ι} {start finish : σ},
      (∀ state state' item, item ∈ items → keep state →
        step state item = .ok state' → keep state') →
      keep start → items.foldlM step start = .ok finish → keep finish
  | [], _, _, _, holds, run => by
      cases run
      exact holds
  | item :: items, start, finish, kept, holds, run => by
      rw [List.foldlM_cons] at run
      cases first : step start item with
      | error failure =>
          rw [first] at run
          cases run
      | ok next =>
          rw [first] at run
          exact foldlM_invariant keep
            (fun state state' other member =>
              kept state state' other (List.mem_cons_of_mem _ member))
            (kept start next item List.mem_cons_self holds first) run

/-- Every item of a failing loop that ran to its end went through a successful step. -/
theorem foldlM_step_of_mem {step : σ → ι → Except ε σ} :
    ∀ {items : List ι} {start finish : σ}, items.foldlM step start = .ok finish →
      ∀ item ∈ items, ∃ state state', step state item = .ok state'
  | [], _, _, _, _, member => absurd member List.not_mem_nil
  | item :: items, start, finish, run, other, member => by
      rw [List.foldlM_cons] at run
      cases first : step start item with
      | error failure =>
          rw [first] at run
          cases run
      | ok next =>
          rw [first] at run
          rcases List.mem_cons.1 member with here | later
          · subst here
            exact ⟨start, next, first⟩
          · exact foldlM_step_of_mem run other later

/-- A failing loop fails at one of its items, with the error of that item's step. -/
theorem exists_step_of_foldlM_eq_error {step : σ → ι → Except ε σ} :
    ∀ {items : List ι} {start : σ} {e : ε}, items.foldlM step start = .error e →
      ∃ item ∈ items, ∃ state, step state item = .error e
  | [], _, _, run => by cases run
  | item :: items, start, e, run => by
      rw [List.foldlM_cons] at run
      cases first : step start item with
      | error failure =>
          rw [first] at run
          cases run
          exact ⟨item, List.mem_cons_self, start, first⟩
      | ok next =>
          rw [first] at run
          obtain ⟨other, member, state, fails⟩ := exists_step_of_foldlM_eq_error run
          exact ⟨other, List.mem_cons_of_mem _ member, state, fails⟩

/-- A loop whose steps raise only `e` raises it when one of its items fails in every state. -/
theorem foldlM_eq_error_of_mem {step : σ → ι → Except ε σ} {e : ε}
    (only : ∀ state item e', step state item = .error e' → e' = e) {item : ι}
    (fails : ∀ state, step state item = .error e) :
    ∀ {items : List ι} {start : σ}, item ∈ items → items.foldlM step start = .error e
  | [], _, member => absurd member List.not_mem_nil
  | other :: items, start, member => by
      rw [List.foldlM_cons]
      cases first : step start other with
      | error failure =>
          rw [only start other failure first]
          rfl
      | ok next =>
          rcases List.mem_cons.1 member with rfl | later
          · rw [fails start] at first
            cases first
          · exact foldlM_eq_error_of_mem only fails later

end Invariant

end KeyedFold
