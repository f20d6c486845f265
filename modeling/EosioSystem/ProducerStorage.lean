import EosioSystem.Library.Codec
import EosioSystem.Voting

/-!
# How producers are stored

Fields that were added to a row later are binary extensions: a row may end before them. The writer
leaves off the unset ones at the end and writes a default for the others, so that a row that is
written again does not become longer. The reader leaves an extension unset if the row has ended.

## Main definitions

* `writeExtensions`, `readExtensions`: extensions at the end of a row
* `Extension.filled`: what is expected to be read back
* `ProducerRow`: a row of the table of producers, and how it is written and read

## Main results

* `readExtensions_writeExtensions`: **when extensions are read back**
* `ProducerRow.decode_encode`: **a row is read back**, and says the same about the producer
-/

namespace EosioSystem

/-! ## Extensions -/

/-- The type of a `binary_extension`: how its values are written, and the default `T{}`. -/
structure Extension (β : Type) where
  Value : Type
  codec : Codec β Value
  default : Value

namespace Extension

variable {β : Type}

/-- The values of some extensions, each of which may be unset. -/
inductive Values : List (Extension β) → Type 1
  | nil : Values []
  | cons {e : Extension β} {l : List (Extension β)} (obj : Option e.Value) (objs : Values l) :
    Values (e :: l)

/-- All unset. -/
def unset : (l : List (Extension β)) → Values l
  | [] => .nil
  | _ :: l => .cons none (unset l)

variable {e : Extension β} {l : List (Extension β)} {obj : Option e.Value}

/-- `something_has_value` -/
def somethingHasValue {l : List (Extension β)} : Values l → Bool
  | .nil => false
  | .cons obj objs => if obj.isSome then true else somethingHasValue objs

/-- `write_extensions` -/
def writeExtensions {l : List (Extension β)} : Values l → List β
  | .nil => []
  | .cons (e := e) obj objs =>
    if somethingHasValue (.cons obj objs) then
      e.codec.encode (obj.getD e.default) ++ writeExtensions objs
    else []

/-- `>>` of an extension, which stays unset if the stream has ended. -/
def read (e : Extension β) (ds : List β) : Option (Option e.Value × List β) :=
  match ds with
  | [] => some (none, [])
  | _ :: _ => (e.codec.decode ds).map fun x => (some x.1, x.2)

/-- `>>` of some extensions, one after another -/
def readExtensions : (l : List (Extension β)) → List β → Option (Values l × List β)
  | [], ds => some (.nil, ds)
  | e :: l, ds => (e.read ds).bind fun x =>
    (readExtensions l x.2).map fun xs => (.cons x.1 xs.1, xs.2)

/-- The same values, with a default in place of each that is unset before one that is set. -/
def Values.filled {l : List (Extension β)} : Values l → Values l
  | .nil => .nil
  | .cons (e := e) obj objs =>
    .cons (if somethingHasValue (.cons obj objs) then some (obj.getD e.default) else none)
      objs.filled

/-- What is written for the last extension that is set. -/
def Values.lastWritten {l : List (Extension β)} : Values l → Option (List β)
  | .nil => none
  | .cons (e := e) obj objs => objs.lastWritten.or (obj.map e.codec.encode)

variable {objs : Values l}

theorem somethingHasValue_cons : somethingHasValue (.cons obj objs) =
    (obj.isSome || somethingHasValue objs) := by
  cases obj <;> rfl

theorem writeExtensions_cons (h : somethingHasValue (.cons obj objs) = true) :
    writeExtensions (.cons obj objs) =
      e.codec.encode (obj.getD e.default) ++ writeExtensions objs := if_pos h

theorem filled_cons (h : somethingHasValue (.cons obj objs) = true) :
    (Values.cons obj objs).filled = .cons (some (obj.getD e.default)) objs.filled :=
  congrArg (Values.cons · objs.filled) (if_pos h)

/-! ### Nothing is set -/

theorem eq_unset (h : somethingHasValue objs = false) : objs = unset l := by
  induction objs with
  | nil => rfl
  | cons obj objs ih =>
    rw [somethingHasValue_cons, Bool.or_eq_false_iff, Option.isSome_eq_false_iff,
      Option.isNone_iff_eq_none] at h
    obtain ⟨rfl, h⟩ := h
    exact congrArg (Values.cons none) (ih h)

theorem somethingHasValue_unset (l : List (Extension β)) : somethingHasValue (unset l) = false := by
  induction l with
  | nil => rfl
  | cons e l ih => exact ih

theorem writeExtensions_unset (l : List (Extension β)) : writeExtensions (unset l) = [] := by
  cases l with
  | nil => rfl
  | cons e l => exact if_neg (Bool.not_eq_true _ ▸ somethingHasValue_unset (e :: l))

theorem filled_unset (l : List (Extension β)) : (unset l).filled = unset l := by
  induction l with
  | nil => rfl
  | cons e l ih =>
    show Values.cons (if somethingHasValue (unset (e :: l)) then _ else none) _ = _
    rw [somethingHasValue_unset, if_neg Bool.false_ne_true, ih]
    rfl

theorem lastWritten_unset (l : List (Extension β)) : (unset l).lastWritten = none := by
  induction l with
  | nil => rfl
  | cons e l ih =>
    show (unset l).lastWritten.or none = none
    rw [ih, Option.or_none]

/-- At the end of the stream all extensions stay unset. -/
theorem readExtensions_nil (l : List (Extension β)) : readExtensions l [] = some (unset l, []) := by
  induction l with
  | nil => rfl
  | cons e l ih =>
    show (readExtensions l []).map _ = _
    rw [ih, Option.map_some]
    rfl

/-! ### Read back -/

/-- If something is set something has been written last. -/
theorem isSome_lastWritten (h : somethingHasValue objs = true) : objs.lastWritten.isSome := by
  induction objs with
  | nil => exact absurd h Bool.false_ne_true
  | cons obj objs ih =>
    rw [somethingHasValue_cons, Bool.or_eq_true] at h
    unfold Values.lastWritten
    rw [Option.isSome_or, Option.isSome_map, Bool.or_eq_true]
    exact h.symm.imp_left ih

theorem lastWritten_cons (h : somethingHasValue objs = true) :
    (Values.cons obj objs).lastWritten = objs.lastWritten := by
  obtain ⟨ds, hds⟩ := Option.isSome_iff_exists.mp (isSome_lastWritten h)
  show objs.lastWritten.or _ = _
  rw [hds, Option.some_or]

/-- What is written last is a part of what is written. -/
theorem lastWritten_eq_nil (h : somethingHasValue objs = true) (hw : writeExtensions objs = []) :
    objs.lastWritten = some [] := by
  induction objs with
  | nil => exact absurd h Bool.false_ne_true
  | @cons e l obj objs ih =>
    rw [writeExtensions_cons h, List.append_eq_nil_iff] at hw
    obtain ⟨he, hw⟩ := hw
    cases hs : somethingHasValue objs with
    | true => rw [lastWritten_cons hs, ih hs hw]
    | false =>
      obtain rfl := eq_unset hs
      rw [somethingHasValue_cons, hs, Bool.or_false] at h
      obtain ⟨v, rfl⟩ := Option.isSome_iff_exists.mp h
      unfold Values.lastWritten
      rw [lastWritten_unset, Option.none_or]
      exact congrArg some he

/-- Before the end of the stream a value is read. -/
theorem readExtensions_cons (h : e.codec.RoundTrips) {v : e.Value} {ds : List β}
    (hne : e.codec.encode v ++ ds ≠ []) :
    readExtensions (e :: l) (e.codec.encode v ++ ds) =
      (readExtensions l ds).map fun x => (.cons (some v) x.1, x.2) := by
  have hread : e.read (e.codec.encode v ++ ds) = some (some v, ds) := by
    have hd := h v ds
    unfold read
    split
    · rename_i heq
      exact absurd heq hne
    · rw [hd, Option.map_some]
  show (e.read (e.codec.encode v ++ ds)).bind _ = _
  rw [hread, Option.bind_some]

/-- **When extensions are read back**: the last one that is set has left something in the stream. -/
theorem readExtensions_writeExtensions (objs : Values l) (h : ∀ e ∈ l, e.codec.RoundTrips) :
    readExtensions l (writeExtensions objs) = some (objs.filled, []) ↔
      objs.lastWritten ≠ some [] := by
  induction objs with
  | nil => exact ⟨fun _ h => Option.some_ne_none _ h.symm, fun _ => rfl⟩
  | @cons e l obj objs ih =>
    have ih := ih fun e he => h e (List.mem_cons_of_mem _ he)
    cases hs : somethingHasValue (.cons obj objs) with
    | false =>
      rw [eq_unset hs, writeExtensions_unset, readExtensions_nil, filled_unset, lastWritten_unset]
      exact ⟨fun _ h => Option.some_ne_none _ h.symm, fun _ => rfl⟩
    | true =>
      have hw := writeExtensions_cons hs
      by_cases hne : e.codec.encode (obj.getD e.default) ++ writeExtensions objs = []
      · -- the stream has ended where a value is expected
        rw [lastWritten_eq_nil hs (hw.trans hne), hw, hne, readExtensions_nil, filled_cons hs]
        refine iff_of_false (fun hr => ?_) fun hl => hl rfl
        obtain ⟨hr, -⟩ := Prod.mk.inj (Option.some.inj hr)
        cases hr
      · rw [hw, readExtensions_cons (h e List.mem_cons_self) hne, filled_cons hs]
        cases hl : somethingHasValue objs with
        | true =>
          rw [lastWritten_cons hl, ← ih]
          refine ⟨fun hr => ?_, fun hr => by rw [hr, Option.map_some]⟩
          obtain ⟨⟨objs', ds⟩, hx, hr⟩ := Option.map_eq_some_iff.mp hr
          cases hr
          exact hx
        | false =>
          -- this one is the last
          obtain rfl := eq_unset hl
          rw [somethingHasValue_cons, hl, Bool.or_false] at hs
          obtain ⟨v, rfl⟩ := Option.isSome_iff_exists.mp hs
          rw [writeExtensions_unset, List.append_nil] at hne
          rw [writeExtensions_unset, readExtensions_nil, filled_unset]
          refine iff_of_true rfl fun hlast => hne ?_
          unfold Values.lastWritten at hlast
          rw [lastWritten_unset, Option.none_or] at hlast
          exact Option.some.inj hlast

/-- An extension of a type with more than one value leaves something in the stream. -/
theorem lastWritten_ne_nil (objs : Values l)
    (h : ∀ e ∈ l, e.codec.RoundTrips ∧ Nontrivial e.Value) : objs.lastWritten ≠ some [] := by
  induction objs with
  | nil => exact fun h => Option.some_ne_none _ h.symm
  | @cons e l obj objs ih =>
    have ih := ih fun e he => h e (List.mem_cons_of_mem _ he)
    obtain ⟨hr, hn⟩ := h e List.mem_cons_self
    unfold Values.lastWritten
    intro he
    rcases Option.or_eq_some_iff.mp he with he | ⟨-, he⟩
    · exact ih he
    · obtain ⟨v, -, hv⟩ := Option.map_eq_some_iff.mp he
      exact hr.encode_ne_nil v hv

/-- **What has been read back is written as it was.** -/
theorem writeExtensions_filled (objs : Values l) :
    writeExtensions objs.filled = writeExtensions objs := by
  induction objs with
  | nil => rfl
  | cons obj objs ih =>
    cases hs : somethingHasValue (.cons obj objs) with
    | false => rw [eq_unset hs, filled_unset]
    | true =>
      rw [filled_cons hs, writeExtensions_cons hs, writeExtensions_cons rfl, ih]
      rfl

end Extension

/-! ## Producers -/

/-- `key_weight` -/
structure KeyWeight (Key : Type) where
  key : Key
  weight : ℕ

/-- `block_signing_authority`, a variant of which there is one alternative only. -/
structure BlockSigningAuthority (Key : Type) where
  threshold : ℕ
  keys : List (KeyWeight Key)

/-- `convert_to_block_signing_authority` -/
def convertToBlockSigningAuthority {Key : Type} (producerKey : Key) : BlockSigningAuthority Key :=
  ⟨1, [⟨producerKey, 1⟩]⟩

/-- `producer_info`, a row of the table of producers -/
structure ProducerRow (K Key : Type) where
  owner : Name
  totalVotes : K
  producerKey : Key
  isActive : Bool
  url : String
  unpaidBlocks : ℕ
  lastClaimTime : ℕ
  location : ℕ
  producerAuthority : Option (BlockSigningAuthority Key)
  poolVotes : Option (Option (List K))

/-- How the fields of a row are written, and the authority that stands for one that is unset. -/
structure RowCodec (β K Key : Type) where
  name : Codec β Name
  double : Codec β K
  publicKey : Codec β Key
  bool : Codec β Bool
  string : Codec β String
  uint32 : Codec β ℕ
  timePoint : Codec β ℕ
  uint16 : Codec β ℕ
  authority : Codec β (BlockSigningAuthority Key)
  votes : Codec β (Option (List K))
  defaultAuthority : BlockSigningAuthority Key

/-- What is written is read back, and the authority that stands for an unset one has no
threshold. -/
structure RowCodec.Sound {β K Key : Type} (c : RowCodec β K Key) : Prop where
  name : c.name.RoundTrips
  double : c.double.RoundTrips
  publicKey : c.publicKey.RoundTrips
  bool : c.bool.RoundTrips
  string : c.string.RoundTrips
  uint32 : c.uint32.RoundTrips
  timePoint : c.timePoint.RoundTrips
  uint16 : c.uint16.RoundTrips
  authority : c.authority.RoundTrips
  votes : c.votes.RoundTrips
  threshold : c.defaultAuthority.threshold = 0

namespace ProducerRow

variable {β K Key : Type} (c : RowCodec β K Key) (t : ProducerRow K Key)

/-- The two fields that were added later. -/
def extensions : List (Extension β) :=
  [⟨BlockSigningAuthority Key, c.authority, c.defaultAuthority⟩,
    ⟨Option (List K), c.votes, none⟩]

/-- `operator <<` -/
def encode : List β :=
  c.name.encode t.owner ++ c.double.encode t.totalVotes ++ c.publicKey.encode t.producerKey ++
    c.bool.encode t.isActive ++ c.string.encode t.url ++ c.uint32.encode t.unpaidBlocks ++
    c.timePoint.encode t.lastClaimTime ++ c.uint16.encode t.location ++
    Extension.writeExtensions (l := extensions c)
      (.cons t.producerAuthority (.cons t.poolVotes .nil))

/-- `operator >>` -/
def decode (ds : List β) : Option (ProducerRow K Key × List β) := do
  let (owner, ds) ← c.name.decode ds
  let (totalVotes, ds) ← c.double.decode ds
  let (producerKey, ds) ← c.publicKey.decode ds
  let (isActive, ds) ← c.bool.decode ds
  let (url, ds) ← c.string.decode ds
  let (unpaidBlocks, ds) ← c.uint32.decode ds
  let (lastClaimTime, ds) ← c.timePoint.decode ds
  let (location, ds) ← c.uint16.decode ds
  let (producerAuthority, ds) ← Extension.read ⟨_, c.authority, c.defaultAuthority⟩ ds
  let (poolVotes, ds) ← Extension.read ⟨_, c.votes, none⟩ ds
  return (⟨owner, totalVotes, producerKey, isActive, url, unpaidBlocks, lastClaimTime, location,
    producerAuthority, poolVotes⟩, ds)

/-- `get_producer_authority` -/
def getProducerAuthority : BlockSigningAuthority Key :=
  match t.producerAuthority with
  | some auth => if auth.threshold = 0 then convertToBlockSigningAuthority t.producerKey else auth
  | none => convertToBlockSigningAuthority t.producerKey

/-- `get_prod_pool_votes` -/
def getProdPoolVotes : Option (List K) := t.poolVotes.join

/-- What the actions of the model use of a row. -/
def info : ProducerInfo K where
  totalVotes := t.totalVotes
  isActive := t.isActive
  unpaidBlocks := t.unpaidBlocks
  lastClaimTime := t.lastClaimTime
  poolVotes := t.getProdPoolVotes

/-- The row as it is read back. -/
def stored : ProducerRow K Key :=
  { t with producerAuthority :=
      if t.poolVotes.isSome then some (t.producerAuthority.getD c.defaultAuthority)
      else t.producerAuthority }

variable {c}

instance : Nontrivial (BlockSigningAuthority Key) :=
  ⟨⟨⟨0, []⟩, ⟨1, []⟩, fun h => by cases h⟩⟩

instance : Nontrivial (Option (List K)) := ⟨⟨none, some [], fun h => by cases h⟩⟩

/-- The extensions of a row are read back. -/
theorem readExtensions_row (h : c.Sound) :
    Extension.readExtensions (extensions c) (Extension.writeExtensions (l := extensions c)
      (.cons t.producerAuthority (.cons t.poolVotes .nil))) =
      some (.cons (t.stored c).producerAuthority (.cons t.poolVotes .nil), []) := by
  have hsound : ∀ e ∈ extensions c, e.codec.RoundTrips ∧ Nontrivial e.Value := by
    intro e he
    rcases List.mem_cons.mp he with rfl | he
    · exact ⟨h.authority, inferInstanceAs (Nontrivial (BlockSigningAuthority Key))⟩
    · obtain rfl := List.mem_singleton.mp he
      exact ⟨h.votes, inferInstanceAs (Nontrivial (Option (List K)))⟩
  have hread := (Extension.readExtensions_writeExtensions (l := extensions c)
    (.cons t.producerAuthority (.cons t.poolVotes .nil)) fun e he => (hsound e he).1).mpr
    (Extension.lastWritten_ne_nil _ hsound)
  rw [hread]
  unfold stored
  -- an authority is filled in if it or the votes are set
  cases t.producerAuthority <;> cases t.poolVotes <;> rfl

/-- **A row is read back.** -/
theorem decode_encode (h : c.Sound) : decode c (t.encode c) = some (t.stored c, []) := by
  have hext := t.readExtensions_row h
  unfold encode decode
  simp only [List.append_assoc, bind, h.name t.owner, h.double t.totalVotes,
    h.publicKey t.producerKey, h.bool t.isActive, h.string t.url, h.uint32 t.unpaidBlocks,
    h.timePoint t.lastClaimTime, h.uint16 t.location, Option.bind_some]
  generalize Extension.writeExtensions _ = ds at hext
  obtain ⟨⟨auth, ds₁⟩, h₁, h₂⟩ := Option.bind_eq_some_iff.mp hext
  obtain ⟨⟨vs, ds₂⟩, h₃, h₄⟩ := Option.map_eq_some_iff.mp h₂
  obtain ⟨⟨votes, ds₃⟩, h₅, h₆⟩ := Option.bind_eq_some_iff.mp h₃
  cases h₆
  cases h₄
  rw [h₁, Option.bind_some, h₅, Option.bind_some]
  rfl

/-- Storage makes no difference to the actions. -/
theorem info_stored : (t.stored c).info = t.info := rfl

/-- A row that has been read back says the same about the producer. -/
theorem getProducerAuthority_stored (h : c.Sound) :
    (t.stored c).getProducerAuthority = t.getProducerAuthority := by
  unfold stored getProducerAuthority
  cases t.producerAuthority <;> cases t.poolVotes
  · rfl
  · -- the authority that has been filled in has no threshold
    exact if_pos h.threshold
  · rfl
  · rfl

/-- **What has been read back is written as it was.** -/
theorem encode_stored : (t.stored c).encode c = t.encode c := by
  have hw := Extension.writeExtensions_filled (l := extensions c)
    (.cons t.producerAuthority (.cons t.poolVotes .nil))
  unfold encode
  congr 1
  refine Eq.trans ?_ hw
  unfold stored
  cases t.producerAuthority <;> cases t.poolVotes <;> rfl

end ProducerRow

/-! ## Storage -/

/-- **What is stored is read back**: extensions of any number and any types are read back, with a
default for each that is unset before one that is set, if and only if the last one that is set has
left something in the stream, as a value of a type with more than one always has. What has been read
back is written as it was. A row of the table of producers is always read back, and says the same
about the authority and the pool votes of the producer. -/
theorem storage_roundTrip {β K Key : Type} {l : List (Extension β)}
    (hl : ∀ e ∈ l, e.codec.RoundTrips) (objs : Extension.Values l) {c : RowCodec β K Key}
    (hc : c.Sound) (t : ProducerRow K Key) :
    (Extension.readExtensions l (Extension.writeExtensions objs) = some (objs.filled, []) ↔
      objs.lastWritten ≠ some []) ∧
    ((∀ e ∈ l, Nontrivial e.Value) → objs.lastWritten ≠ some []) ∧
    Extension.writeExtensions objs.filled = Extension.writeExtensions objs ∧
    ProducerRow.decode c (t.encode c) = some (t.stored c, []) ∧
    (t.stored c).getProducerAuthority = t.getProducerAuthority ∧
    (t.stored c).getProdPoolVotes = t.getProdPoolVotes ∧
    (t.stored c).encode c = t.encode c :=
  ⟨Extension.readExtensions_writeExtensions objs hl,
    fun hn => Extension.lastWritten_ne_nil objs fun e he => ⟨hl e he, hn e he⟩,
    Extension.writeExtensions_filled objs, t.decode_encode hc, t.getProducerAuthority_stored hc,
    rfl, t.encode_stored⟩

/-- A text, as the numbers of its characters. -/
def exampleString : Codec ℕ String :=
  Codec.nat.list.via (fun s => s.toList.map Char.toNat) fun l => String.ofList (l.map Char.ofNat)

theorem exampleString_roundTrips : exampleString.RoundTrips := by
  refine Codec.nat_roundTrips.list.via fun s => ?_
  rw [List.map_map]
  have hid : Char.ofNat ∘ Char.toNat = id := by
    funext ch
    exact Char.ofNat_toNat ch
  rw [hid, List.map_id, String.ofList_toList]

/-- A signing authority, as its threshold and its keys. -/
def exampleAuthority : Codec ℕ (BlockSigningAuthority ℕ) :=
  (Codec.nat.prod (Codec.nat.prod Codec.nat).list).via
    (fun a => (a.threshold, a.keys.map fun k => (k.key, k.weight)))
    fun x => ⟨x.1, x.2.map fun k => ⟨k.1, k.2⟩⟩

theorem exampleAuthority_roundTrips : exampleAuthority.RoundTrips := by
  refine (Codec.nat_roundTrips.prod
    (Codec.nat_roundTrips.prod Codec.nat_roundTrips).list).via fun a => ?_
  simp only [List.map_map, Function.comp_def, List.map_id']

/-- A row of numbers. -/
def exampleRowCodec : RowCodec ℕ ℕ ℕ where
  name := Codec.nat.via Name.value Name.mk
  double := Codec.nat
  publicKey := Codec.nat
  bool := Codec.nat.via Bool.toNat (· == 1)
  string := exampleString
  uint32 := Codec.nat
  timePoint := Codec.nat
  uint16 := Codec.nat
  authority := exampleAuthority
  votes := Codec.nat.list.option
  defaultAuthority := ⟨0, []⟩

theorem exampleRowCodec_sound : exampleRowCodec.Sound where
  name := Codec.nat_roundTrips.via fun _ => rfl
  double := Codec.nat_roundTrips
  publicKey := Codec.nat_roundTrips
  bool := Codec.nat_roundTrips.via (f := Bool.toNat) (g := (· == 1)) fun b => by cases b <;> rfl
  string := exampleString_roundTrips
  uint32 := Codec.nat_roundTrips
  timePoint := Codec.nat_roundTrips
  uint16 := Codec.nat_roundTrips
  authority := exampleAuthority_roundTrips
  votes := Codec.nat_roundTrips.list.option
  threshold := rfl

/-- Three extensions, of which the second one is set, and a producer with votes and no authority. -/
theorem storage_roundTrip_example :
    Extension.readExtensions (List.replicate 3 ⟨ℕ, Codec.nat, 0⟩) [0, 7] =
      some (.cons (some 0) (.cons (some 7) (.cons none .nil)), []) ∧
    ∃ t : ProducerRow ℕ ℕ,
      t.encode exampleRowCodec = [5, 40, 9, 1, 2, 104, 105, 3, 2, 1, 0, 0, 1, 2, 30, 10] ∧
      ∃ t', ProducerRow.decode exampleRowCodec (t.encode exampleRowCodec) = some (t', []) ∧
        t'.producerAuthority = some ⟨0, []⟩ ∧ t'.getProducerAuthority = ⟨1, [⟨9, 1⟩]⟩ ∧
        t'.getProdPoolVotes = some [30, 10] := by
  have hl : ∀ e ∈ List.replicate 3 (⟨ℕ, Codec.nat, 0⟩ : Extension ℕ), e.codec.RoundTrips := by
    intro e he
    rw [List.eq_of_mem_replicate he]
    exact Codec.nat_roundTrips
  let t : ProducerRow ℕ ℕ := ⟨⟨5⟩, 40, 9, true, "hi", 3, 2, 1, none, some (some [30, 10])⟩
  obtain ⟨hread, -, -, ht, hauth, hvotes, -⟩ := storage_roundTrip hl
    (.cons none (.cons (some (7 : ℕ)) (.cons none .nil))) exampleRowCodec_sound t
  refine ⟨hread.mpr fun h => ?_, t, by decide, _, ht, rfl, hauth, hvotes⟩
  exact absurd h (by decide)

/-- An extension of a type with one value leaves nothing in the stream, and is not read back. -/
theorem readExtensions_of_empty : ∃ (l : List (Extension ℕ)) (objs : Extension.Values l),
    (∀ e ∈ l, e.codec.RoundTrips) ∧
    Extension.readExtensions l (Extension.writeExtensions objs) ≠ some (objs.filled, []) := by
  let e : Extension ℕ := ⟨Unit, ⟨fun _ => [], fun ds => some ((), ds)⟩, ()⟩
  refine ⟨[e], .cons (some ()) .nil, fun e' he => ?_, fun h => ?_⟩
  · rw [List.mem_singleton.mp he]
    exact fun _ _ => rfl
  · obtain ⟨h, -⟩ := Prod.mk.inj (Option.some.inj h)
    cases h

end EosioSystem
