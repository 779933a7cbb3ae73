import Mathlib.Data.List.Infix
import Mathlib.Logic.Function.Basic
import SeededTraits.Proofs.Bytes
import SeededTraits.Seed

/-! What a digest depends on. Absorbing bytes can be taken back: the prime has an inverse modulo `2
^ 32`, and so a hasher forgets nothing of the state that it was in. But neither a hasher that is fed
chunks nor a draft that is given parts can tell where one piece ends and the next begins, and of a
seed source only its text counts. -/
namespace SeededTraits

namespace Bytes

/-- Of the same length, different at one place and the same at all others. -/
def DifferOnce (a b : Bytes) : Prop :=
  a.length = b.length ∧ ∃ i : Nat, a[i]? ≠ b[i]? ∧ ∀ j, j ≠ i → a[j]? = b[j]?

theorem DifferOnce.around {a b : Bytes} (h : DifferOnce a b) :
    ∃ front x y back, x ≠ y ∧ a = front ++ x :: back ∧ b = front ++ y :: back := by
  obtain ⟨hlength, i, hi, same⟩ := h
  have ha : i < a.length := by
    by_contra hout
    have outside : a[i]? = none ∧ b[i]? = none := by simp; omega
    exact hi (outside.1.trans outside.2.symm)
  have hb : i < b.length := by omega
  have front : a.take i = b.take i := by
    apply List.ext_getElem?
    intro j
    rw [List.getElem?_take, List.getElem?_take]
    by_cases hj : j < i
    · rw [if_pos hj, if_pos hj, same j (Nat.ne_of_lt hj)]
    · rw [if_neg hj, if_neg hj]
  have back : a.drop (i + 1) = b.drop (i + 1) := by
    apply List.ext_getElem?
    intro j
    rw [List.getElem?_drop, List.getElem?_drop, same _ (by omega)]
  have split (l : Bytes) (hl : i < l.length) : l = l.take i ++ l[i] :: l.drop (i + 1) := by
    rw [← List.drop_eq_getElem_cons hl, List.take_append_drop]
  refine ⟨a.take i, a[i], b[i], a.drop (i + 1), ?_, split a ha, ?_⟩
  · simpa [List.getElem?_eq_getElem ha, List.getElem?_eq_getElem hb] using hi
  · rw [front, back]
    exact split b hb

end Bytes

namespace Fnv

/-! ### One byte -/

/-- What the prime has to be multiplied by to give one, in 32 bits. -/
def primeInverse : UInt32 := 0x359c449b

theorem prime_mul_primeInverse : prime * primeInverse = 1 := by decide

def release (state : UInt32) (b : UInt8) : UInt32 :=
  (state * primeInverse) ^^^ b.toUInt32

theorem absorb_mul_primeInverse (state : UInt32) (b : UInt8) :
    absorb state b * primeInverse = state ^^^ b.toUInt32 := by
  rw [absorb, UInt32.mul_assoc, prime_mul_primeInverse, UInt32.mul_one]

theorem release_absorb (state : UInt32) (b : UInt8) : release (absorb state b) b = state := by
  rw [release, absorb_mul_primeInverse, UInt32.xor_assoc, UInt32.xor_self, UInt32.xor_zero]

theorem absorb_release (state : UInt32) (b : UInt8) : absorb (release state b) b = state := by
  rw [release, absorb, UInt32.xor_assoc, UInt32.xor_self, UInt32.xor_zero, UInt32.mul_assoc,
    UInt32.mul_comm primeInverse, prime_mul_primeInverse, UInt32.mul_one]

theorem absorb_injective (state : UInt32) : Function.Injective (absorb state) := by
  intro b c h
  have mixed : state ^^^ b.toUInt32 = state ^^^ c.toUInt32 := by
    rw [← absorb_mul_primeInverse, h, absorb_mul_primeInverse]
  exact UInt8.toUInt32_inj.1 ((UInt32.xor_right_inj state).1 mixed)

/-! ### Any number of bytes -/

namespace Hasher

/-- The hasher before the bytes were absorbed, the last of them released first. -/
def rewind (h : Hasher) (bs : Bytes) : Hasher :=
  ⟨bs.foldr (fun b state => release state b) h.state⟩

theorem rewind_update (h : Hasher) (bs : Bytes) : (h.update bs).rewind bs = h := by
  obtain ⟨state⟩ := h
  induction bs generalizing state with
  | nil => rfl
  | cons b bs ih =>
    have rest := ih (absorb state b)
    simp only [rewind, update, Hasher.mk.injEq] at rest ⊢
    rw [List.foldl_cons, List.foldr_cons, rest, release_absorb]

theorem update_rewind (h : Hasher) (bs : Bytes) : (h.rewind bs).update bs = h := by
  obtain ⟨state⟩ := h
  induction bs with
  | nil => rfl
  | cons b bs ih =>
    simp only [rewind, update, Hasher.mk.injEq] at ih ⊢
    rw [List.foldr_cons, List.foldl_cons, absorb_release, ih]

theorem update_bijective (bs : Bytes) : Function.Bijective fun h : Hasher => h.update bs :=
  Function.bijective_iff_has_inverse.2
    ⟨fun h => h.rewind bs, fun h => rewind_update h bs, fun h => update_rewind h bs⟩

theorem update_inj {h h' : Hasher} (bs : Bytes) : h.update bs = h'.update bs ↔ h = h' :=
  (update_bijective bs).1.eq_iff

theorem update_ne_of_differ_once (h : Hasher) {a b : Bytes} (differ : a.DifferOnce b) :
    h.update a ≠ h.update b := by
  obtain ⟨front, x, y, back, hne, rfl, rfl⟩ := differ.around
  intro heq
  have around (z : UInt8) : h.update (front ++ z :: back) =
      ((h.update front).update [z]).update back := by
    rw [← update_append, ← update_append]
    rfl
  rw [around, around, update_inj] at heq
  exact hne (absorb_injective _ (Hasher.mk.inj heq))

end Hasher
end Fnv

namespace SeedMaterial

theorem digest_inj {m m' : SeedMaterial} :
    m.digest = m'.digest ↔ Fnv.Hasher.update {} m.bytes = Fnv.Hasher.update {} m'.bytes := by
  simp only [digest, Digest.mk.injEq, Fnv.Hasher.finish]
  exact ⟨fun h => congrArg Fnv.Hasher.mk h, fun h => congrArg Fnv.Hasher.state h⟩

/-- Every suffix permutes the states of a hasher, so one that two seeds share neither joins their
digests nor sets them apart, and seeds of one length that differ in a single byte, wherever it
stands, have different digests. -/
theorem digest_ne_of_differ_once (suffix : Bytes) :
    (Function.Bijective fun h : Fnv.Hasher => h.update suffix) ∧
      (∀ p q : Bytes,
        (SeedMaterial.mk (p ++ suffix)).digest = (SeedMaterial.mk (q ++ suffix)).digest ↔
          (SeedMaterial.mk p).digest = (SeedMaterial.mk q).digest) ∧
      ∀ m m' : SeedMaterial, m.bytes.DifferOnce m'.bytes → m.digest ≠ m'.digest := by
  refine ⟨Fnv.Hasher.update_bijective suffix, fun p q => ?_, fun m m' differ => ?_⟩
  · rw [digest_inj, digest_inj]
    simp only [Fnv.Hasher.update_append]
    exact Fnv.Hasher.update_inj suffix
  · rw [ne_eq, digest_inj]
    exact Fnv.Hasher.update_ne_of_differ_once {} differ

theorem digest_ne_of_differ_once_transaction :
    let m := ofContext ⟨7, "00ab", "c1"⟩ "user"
    let m' := ofContext ⟨8, "00ab", "d1"⟩ "user"
    m.bytes.DifferOnce m'.bytes ∧ m.digest ≠ m'.digest := by
  intro m m'
  have differ : m.bytes.DifferOnce m'.bytes := by
    refine ⟨rfl, 4, by decide, fun j hj => ?_⟩
    by_cases hout : 10 ≤ j
    · have outside : m.bytes[j]? = none ∧ m'.bytes[j]? = none :=
        ⟨List.getElem?_eq_none hout, List.getElem?_eq_none hout⟩
      rw [outside.1, outside.2]
    · have inside : ∀ j : Fin 10, j.val ≠ 4 → m.bytes[j.val]? = m'.bytes[j.val]? := by decide
      exact inside ⟨j, by omega⟩ hj
  exact ⟨differ, (digest_ne_of_differ_once []).2.2 m m' differ⟩

end SeedMaterial

/-! ### Pieces -/

/-! ### Chunks -/

namespace Fnv
namespace Hasher

theorem foldl_update (h : Hasher) (chunks : List Bytes) :
    chunks.foldl update h = h.update chunks.flatten := by
  induction chunks generalizing h with
  | nil => rfl
  | cons chunk rest ih => rw [List.foldl_cons, ih, List.flatten_cons, update_append]

/-- On its way through the chunks a hasher has always absorbed those up to the place it is at. -/
theorem scanl_update (h : Hasher) (chunks : List Bytes) :
    chunks.scanl update h = chunks.inits.map fun front => h.update front.flatten := by
  apply List.ext_getElem
  · simp
  · intro k hk hk'
    rw [List.getElem_scanl, List.getElem_map, List.getElem_inits, foldl_update]

end Hasher
end Fnv

namespace SeedMaterial

theorem finish_foldl_part (parts : List Bytes) (user : String) :
    (parts.foldl SeedDraft.part {}).finish user = ⟨parts.flatten ++ Bytes.ofText user⟩ := by
  rw [SeedDraft.finish, SeedDraft.bytes_foldl_part]
  rfl

/-- A hasher that is fed chunks stands, after each of them, at the hash of all bytes so far.
Material with the chunks as its parts has the digest of these bytes with those of the user behind
them, which is where the hasher comes to if it is fed the user last. So material and digest are the
same however the bytes are cut into chunks. -/
theorem digest_of_chunks (chunks : List Bytes) (user : String) :
    let material := (chunks.foldl SeedDraft.part {}).finish user
    (chunks.scanl Fnv.Hasher.update {}).map Fnv.Hasher.finish =
        chunks.inits.map (fun front => Fnv.hash front.flatten) ∧
      material.digest = Digest.of (chunks.flatten ++ Bytes.ofText user) ∧
      material.digest.value =
        ((chunks.foldl Fnv.Hasher.update {}).update (Bytes.ofText user)).finish ∧
      ∀ chunks' : List Bytes, chunks'.flatten = chunks.flatten →
        (chunks'.foldl SeedDraft.part {}).finish user = material ∧
          ((chunks'.foldl SeedDraft.part {}).finish user).digest = material.digest := by
  intro material
  have whole : material = ⟨chunks.flatten ++ Bytes.ofText user⟩ := finish_foldl_part chunks user
  refine ⟨?_, ?_, ?_, fun chunks' same => ?_⟩
  · rw [Fnv.Hasher.scanl_update, List.map_map]
    rfl
  · rw [digest_eq_of, whole]
  · rw [digest, whole, Fnv.Hasher.foldl_update, Fnv.Hasher.update_append]
  · have alike : (chunks'.foldl SeedDraft.part {}).finish user = material := by
      rw [whole, finish_foldl_part, same]
    exact ⟨alike, congrArg digest alike⟩

theorem digest_of_chunks_recut :
    let chunks := [Bytes.ofText "abc", [], Bytes.ofText "xyz"]
    let chunks' := [Bytes.ofText "a", Bytes.ofText "bcxyz"]
    let material := (chunks.foldl SeedDraft.part {}).finish "token-1"
    chunks'.flatten = chunks.flatten ∧
      (chunks'.foldl SeedDraft.part {}).finish "token-1" = material ∧
      ((chunks'.foldl SeedDraft.part {}).finish "token-1").digest = material.digest ∧
      material.digest = ⟨0xb2872e19⟩ := by
  intro chunks chunks' material
  have same : chunks'.flatten = chunks.flatten := by decide
  obtain ⟨-, -, -, recut⟩ := digest_of_chunks chunks "token-1"
  obtain ⟨materials, digests⟩ := recut chunks' same
  exact ⟨same, materials, digests, by decide⟩

end SeedMaterial

/-! ### Sources -/

namespace SeedSource

variable {seed seed' : SeedSource} {user : String}

/-- All that material takes from a seed source. -/
def text : SeedSource → String
  | .chain context => context.blockHash ++ context.transactionHash
  | .explicit seed => seed

theorem bytes_material (seed : SeedSource) (user : String) :
    (seed.material user).bytes = Bytes.ofText seed.text ++ Bytes.ofText user := by
  cases seed with
  | chain context => simp [material, text, Bytes.ofText_append]
  | explicit seed => rfl

/-- Material shows neither the number of a block nor where its hash ends, and not even whether there
is a block. -/
theorem material_eq_iff : seed.material user = seed'.material user ↔ seed.text = seed'.text := by
  constructor
  · intro h
    have bytes := congrArg SeedMaterial.bytes h
    rw [bytes_material, bytes_material] at bytes
    exact Bytes.ofText_injective (List.append_cancel_right bytes)
  · intro h
    have bytes : (seed.material user).bytes = (seed'.material user).bytes := by
      rw [bytes_material, bytes_material, h]
    exact congrArg SeedMaterial.mk bytes

end SeedSource

end SeededTraits
