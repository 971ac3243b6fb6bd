import Mathlib.Data.List.Basic
import Mathlib.Algebra.Group.Int.Defs
import Mathlib.Algebra.Group.Nat.Defs

/-!
# Decoders over token streams and their round trips

A decoder reads a value from the front of a stream of tokens and leaves the
rest of the stream; it fails when the stream ends too early.  Decoders are the
state monad over the remaining tokens with failure, so that a format is read
by a `do` block in the order of its fields.

`Reads decoder encoded value` says that `decoder` reads `value` from exactly
the tokens `encoded`, whatever tokens follow them.  The rules below build such
facts along the structure of a decoder: a fixed token or a fixed number of
tokens, a value computed from what was read, one decoder after another, a
decoder run once for each item of a list, and a decoder run a given number of
times.  A round trip of a format is then a
proof that its decoder `Reads` the output of its encoder.
-/

namespace StreamDecode

variable {τ α β : Type}

/-- A decoder reads from the front of a list of tokens, or fails at its end. -/
abbrev Decoder (τ α : Type) := StateT (List τ) Option α

/-- Read one token. -/
def token : Decoder τ τ := fun input =>
  match input with
  | [] => none
  | next :: rest => some (next, rest)

/-- Read `count` tokens. -/
def take (count : Nat) : Decoder τ (List τ) := fun input =>
  if count ≤ input.length then some (input.take count, input.drop count) else none

/-- Read `count` values one after another. -/
def count : Nat → Decoder τ α → Decoder τ (List α)
  | 0, _ => pure []
  | count + 1, item => do
      let value ← item
      let values ← StreamDecode.count count item
      pure (value :: values)

/-- `decoder` reads `value` from exactly the tokens `encoded`, whatever follows them. -/
def Reads (decoder : Decoder τ α) (encoded : List τ) (value : α) : Prop :=
  ∀ rest, decoder.run (encoded ++ rest) = some (value, rest)

theorem reads_pure (value : α) : Reads (pure value : Decoder τ α) [] value :=
  fun _ => rfl

theorem reads_token (next : τ) : Reads token [next] next :=
  fun _ => rfl

theorem reads_take (tokens : List τ) : Reads (take tokens.length) tokens tokens := by
  intro rest
  simp [take, StateT.run]

/-- One decoder after another reads the two encodings one after the other. -/
theorem Reads.bind {first : Decoder τ α} {next : α → Decoder τ β}
    {encoded encoded' : List τ} {value : α} {value' : β}
    (reads : Reads first encoded value) (reads' : Reads (next value) encoded' value') :
    Reads (first >>= next) (encoded ++ encoded') value' := by
  intro rest
  rw [StateT.run_bind, List.append_assoc, reads (encoded' ++ rest)]
  exact reads' rest

/-- After a decoder that reads `value` from `encoded`, the next one starts on what follows. -/
theorem Reads.run_bind {first : Decoder τ α} {next : α → Decoder τ β} {encoded : List τ}
    {value : α} (reads : Reads first encoded value) (rest : List τ) :
    (first >>= next).run (encoded ++ rest) = (next value).run rest := by
  rw [StateT.run_bind, reads rest]
  rfl

/-- A decoder that fails stops the decoders after it. -/
theorem run_bind_of_none {first : Decoder τ α} {next : α → Decoder τ β} {input : List τ}
    (fails : first.run input = none) : (first >>= next).run input = none := by
  rw [StateT.run_bind, fails]
  rfl

theorem Reads.map {decoder : Decoder τ α} {encoded : List τ} {value : α}
    (reads : Reads decoder encoded value) (f : α → β) :
    Reads (f <$> decoder) encoded (f value) := by
  intro rest
  rw [StateT.run_map, reads rest]
  rfl

/-- A decoder mapped by `f` reads what `f` makes of the value. -/
theorem Reads.map_of_eq {decoder : Decoder τ α} {encoded : List τ} {value : α} {f : α → β}
    {value' : β} (reads : Reads decoder encoded value) (same : f value = value') :
    Reads (f <$> decoder) encoded value' :=
  same ▸ reads.map f

/-- A decoder that reads `value` reads every value equal to it. -/
theorem Reads.of_value {decoder : Decoder τ α} {encoded : List τ} {value value' : α}
    (reads : Reads decoder encoded value) (same : value = value') :
    Reads decoder encoded value' :=
  same ▸ reads

/-- A decoder that reads `value` from `encoded` also reads it from an equal list. -/
theorem Reads.of_eq {decoder : Decoder τ α} {encoded encoded' : List τ} {value : α}
    (reads : Reads decoder encoded value) (same : encoded = encoded') :
    Reads decoder encoded' value :=
  same ▸ reads

/--
A decoder run for each item of a list reads the encodings of the items in turn,
when each run reads its own item's part.
-/
theorem Reads.mapM {step : α → Decoder τ β} {encode : α → List τ} {decode : α → β} :
    ∀ {items : List α}, (∀ item ∈ items, Reads (step item) (encode item) (decode item)) →
      Reads (items.mapM step) (items.flatMap encode) (items.map decode)
  | [], _ => reads_pure []
  | item :: items, each => by
      rw [List.mapM_cons, List.flatMap_cons, List.map_cons]
      refine (each item List.mem_cons_self).bind ?_
      rw [← List.append_nil (items.flatMap encode)]
      exact (Reads.mapM fun other member =>
        each other (List.mem_cons_of_mem _ member)).bind (reads_pure _)

/-- Reading as many values as there are items reads the encodings of the items in turn. -/
theorem Reads.count {item : Decoder τ β} {encode : α → List τ} {decode : α → β} :
    ∀ {items : List α}, (∀ value ∈ items, Reads item (encode value) (decode value)) →
      Reads (StreamDecode.count items.length item) (items.flatMap encode) (items.map decode)
  | [], _ => reads_pure []
  | value :: items, each => by
      rw [List.length_cons, StreamDecode.count, List.flatMap_cons, List.map_cons]
      refine (each value List.mem_cons_self).bind ?_
      rw [← List.append_nil (items.flatMap encode)]
      exact (Reads.count fun other member =>
        each other (List.mem_cons_of_mem _ member)).bind (reads_pure _)

/-- A bind that reads a value ran its first decoder to some value, and the next one after it. -/
theorem run_bind_eq_some {first : Decoder τ α} {next : α → Decoder τ β} {input rest : List τ}
    {value : β} (read : (first >>= next).run input = some (value, rest)) :
    ∃ value' middle, first.run input = some (value', middle) ∧
      (next value').run middle = some (value, rest) := by
  rw [StateT.run_bind] at read
  cases ran : first.run input with
  | none =>
      rw [ran] at read
      cases read
  | some result =>
      obtain ⟨value', middle⟩ := result
      rw [ran, Option.bind_eq_bind, Option.bind_some] at read
      exact ⟨value', middle, rfl, read⟩

/-- A mapped decoder that reads a value read the value it was made from. -/
theorem run_map_eq_some {decoder : Decoder τ α} {f : α → β} {input rest : List τ} {value : β}
    (read : (f <$> decoder).run input = some (value, rest)) :
    ∃ value', decoder.run input = some (value', rest) ∧ f value' = value := by
  rw [StateT.run_map] at read
  cases ran : decoder.run input with
  | none =>
      rw [ran] at read
      cases read
  | some result =>
      obtain ⟨value', rest'⟩ := result
      rw [ran] at read
      simp only [Functor.map, Option.map_some, Option.some.injEq, Prod.mk.injEq] at read
      obtain ⟨rfl, rfl⟩ := read
      exact ⟨value', rfl, rfl⟩

theorem run_pure_eq_some {value value' : α} {input rest : List τ}
    (read : (pure value : Decoder τ α).run input = some (value', rest)) :
    value = value' ∧ input = rest := by
  simp only [StateT.run_pure, Option.pure_def, Option.some.injEq, Prod.mk.injEq] at read
  exact read

/-- Reading `a + b` values is reading `a` values and then `b` more. -/
theorem count_add (item : Decoder τ α) : ∀ a b : Nat,
    StreamDecode.count (a + b) item = (do
      let first ← StreamDecode.count a item
      let second ← StreamDecode.count b item
      pure (first ++ second))
  | 0, b => by simp [StreamDecode.count]
  | a + 1, b => by
      rw [Nat.add_right_comm, StreamDecode.count, StreamDecode.count, count_add item a b]
      simp only [bind_assoc, pure_bind, List.cons_append]

/--
A decoder run a number of times accepts only the encodings of the values it
returns, one after another, when the decoder accepts only the encoding of the
value it returns.
-/
theorem run_count_eq_some {item : Decoder τ α} {encode : α → List τ}
    (canonical : ∀ {input rest : List τ} {value : α}, item.run input = some (value, rest) →
      input = encode value ++ rest) :
    ∀ {n : Nat} {input rest : List τ} {values : List α},
      (StreamDecode.count n item).run input = some (values, rest) →
        input = values.flatMap encode ++ rest ∧ values.length = n
  | 0, input, rest, values, read => by
      simp only [StreamDecode.count, StateT.run_pure, Option.pure_def, Option.some.injEq, Prod.mk.injEq] at read
      obtain ⟨rfl, rfl⟩ := read
      exact ⟨rfl, rfl⟩
  | n + 1, input, rest, values, read => by
      rw [StreamDecode.count, StateT.run_bind] at read
      cases first : item.run input with
      | none =>
          rw [first] at read
          cases read
      | some result =>
          obtain ⟨value, middle⟩ := result
          rw [first, Option.bind_eq_bind, Option.bind_some, StateT.run_bind] at read
          cases others : (StreamDecode.count n item).run middle with
          | none =>
              rw [others] at read
              cases read
          | some result' =>
              obtain ⟨values', rest'⟩ := result'
              rw [others, Option.bind_eq_bind, Option.bind_some] at read
              simp only [StateT.run_pure, Option.pure_def, Option.some.injEq, Prod.mk.injEq] at read
              obtain ⟨rfl, rfl⟩ := read
              obtain ⟨encoded, length⟩ := run_count_eq_some canonical others
              refine ⟨?_, by rw [List.length_cons, length]⟩
              rw [canonical first, encoded, List.flatMap_cons, List.append_assoc]

end StreamDecode
