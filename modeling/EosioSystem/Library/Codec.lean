import Mathlib.Data.Nat.Notation
import Mathlib.Logic.Function.Basic
import Mathlib.Logic.Nontrivial.Defs

/-!
# Codecs

Values are written to the end of a stream and read from its front. A codec that reads back what it
has written, whatever comes after it, writes something for every value, unless there is one value
only. So a reader that looks at the end of the stream only sees where a value begins.

## Main definitions

* `Codec`, `Codec.RoundTrips`
* `Codec.nat`, `Codec.list`, `Codec.option`, `Codec.via`: codecs for streams of numbers

## Main results

* `Codec.RoundTrips.encode_ne_nil`: **something is written** for every value
-/

/-- How values of `α` are written to a stream of `β`, and read from the front of one. -/
structure Codec (β α : Type) where
  encode : α → List β
  decode : List β → Option (α × List β)

namespace Codec

variable {α α' β : Type} {c : Codec β α} {a b : α} {rest rest' : List β}

/-- What has been written is read back, whatever comes after it. -/
def RoundTrips (c : Codec β α) : Prop := ∀ a rest, c.decode (c.encode a ++ rest) = some (a, rest)

namespace RoundTrips

/-- What is read from the front of a stream does not depend on how it is continued. -/
theorem encode_append_inj (h : c.RoundTrips) (he : c.encode a ++ rest = c.encode b ++ rest') :
    a = b ∧ rest = rest' := by
  have ha := h a rest
  rw [he, h b rest'] at ha
  obtain ⟨rfl, rfl⟩ := Prod.mk.inj (Option.some.inj ha)
  exact ⟨rfl, rfl⟩

/-- **Something is written** for every value of a type with more than one. -/
theorem encode_ne_nil [Nontrivial α] (h : c.RoundTrips) (a : α) : c.encode a ≠ [] := by
  intro hnil
  obtain ⟨b, hb⟩ := exists_ne a
  -- the stream of the other value is one of this value as well
  have he : c.encode a ++ c.encode b = c.encode b ++ [] := by
    rw [hnil, List.nil_append, List.append_nil]
  exact hb (h.encode_append_inj he).1.symm

end RoundTrips

/-! ## Streams of numbers -/

/-- A number is written as it is. -/
def nat : Codec ℕ ℕ where
  encode n := [n]
  decode
    | [] => none
    | n :: rest => some (n, rest)

theorem nat_roundTrips : nat.RoundTrips := fun _ _ => rfl

/-- Values that others stand for. -/
def via (c : Codec β α) (f : α' → α) (g : α → α') : Codec β α' where
  encode a := c.encode (f a)
  decode ds := (c.decode ds).map fun x => (g x.1, x.2)

theorem RoundTrips.via (h : c.RoundTrips) {f : α' → α} {g : α → α'}
    (hg : Function.LeftInverse g f) : (c.via f g).RoundTrips := by
  intro a rest
  show (c.decode (c.encode (f a) ++ rest)).map _ = _
  rw [h, Option.map_some, hg]

/-- One value after another. -/
def prod (c : Codec β α) (c' : Codec β α') : Codec β (α × α') where
  encode x := c.encode x.1 ++ c'.encode x.2
  decode ds := do
    let (a, ds) ← c.decode ds
    let (a', ds) ← c'.decode ds
    return ((a, a'), ds)

theorem RoundTrips.prod {c' : Codec β α'} (h : c.RoundTrips) (h' : c'.RoundTrips) :
    (c.prod c').RoundTrips := by
  rintro ⟨a, a'⟩ rest
  show (c.decode (c.encode a ++ c'.encode a' ++ rest)).bind _ = _
  rw [List.append_assoc, h, Option.bind_some]
  show (c'.decode (c'.encode a' ++ rest)).bind _ = _
  rw [h', Option.bind_some]
  rfl

/-- A value that may be absent, after a number that says so. -/
def option (c : Codec ℕ α) : Codec ℕ (Option α) where
  encode
    | none => [0]
    | some a => 1 :: c.encode a
  decode
    | 0 :: ds => some (none, ds)
    | 1 :: ds => (c.decode ds).map fun x => (some x.1, x.2)
    | _ => none

theorem RoundTrips.option {c : Codec ℕ α} (h : c.RoundTrips) : c.option.RoundTrips := by
  rintro (_ | a) rest
  · rfl
  · show (c.decode (c.encode a ++ rest)).map _ = _
    rw [h, Option.map_some]

/-- Read a given number of values. -/
def decodeMany (c : Codec β α) : ℕ → List β → Option (List α × List β)
  | 0, ds => some ([], ds)
  | n + 1, ds => do
    let (a, ds) ← c.decode ds
    let (l, ds) ← c.decodeMany n ds
    return (a :: l, ds)

theorem RoundTrips.decodeMany (h : c.RoundTrips) (l : List α) (rest : List β) :
    c.decodeMany l.length (l.flatMap c.encode ++ rest) = some (l, rest) := by
  induction l with
  | nil => rfl
  | cons a l ih =>
    show (c.decode (c.encode a ++ l.flatMap c.encode ++ rest)).bind _ = _
    rw [List.append_assoc, h, Option.bind_some]
    show (c.decodeMany l.length (l.flatMap c.encode ++ rest)).bind _ = _
    rw [ih, Option.bind_some]
    rfl

/-- Values after their number. -/
def list (c : Codec ℕ α) : Codec ℕ (List α) where
  encode l := l.length :: l.flatMap c.encode
  decode
    | [] => none
    | n :: ds => c.decodeMany n ds

theorem RoundTrips.list {c : Codec ℕ α} (h : c.RoundTrips) : c.list.RoundTrips :=
  fun l rest => h.decodeMany l rest

end Codec
