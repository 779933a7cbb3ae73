import SeededTraits.Bytes

/-! Seed material and its digest. Material is what is hashed: parts laid end to end with nothing
between them, so that only the concatenation counts, for the 32-bit FNV-1a hash as for the material.
A block number never enters it. -/
namespace SeededTraits

namespace Fnv

def offsetBasis : UInt32 := 0x811c9dc5

def prime : UInt32 := 0x01000193

/-- One byte is mixed in by exclusive or before the multiplication, which wraps. -/
def absorb (state : UInt32) (b : UInt8) : UInt32 :=
  (state ^^^ b.toUInt32) * prime

/-- The running state of a hash; a fresh one stands at the offset basis. -/
structure Hasher where
  state : UInt32 := offsetBasis
  deriving DecidableEq

namespace Hasher

def update (h : Hasher) (bs : Bytes) : Hasher :=
  ⟨bs.foldl absorb h.state⟩

def finish (h : Hasher) : UInt32 := h.state

@[simp] theorem update_nil (h : Hasher) : h.update [] = h := rfl

theorem update_append (h : Hasher) (a b : Bytes) : h.update (a ++ b) = (h.update a).update b := by
  simp [update]

end Hasher

def hash (bs : Bytes) : UInt32 :=
  (Hasher.update {} bs).finish

end Fnv

/-! ### The digest, the one source of variation between outputs -/

structure Digest where
  value : UInt32
  deriving DecidableEq

namespace Digest

def of (bs : Bytes) : Digest := ⟨Fnv.hash bs⟩

/-- Eight lowercase hexadecimal digits, leading zeros kept. -/
def display (d : Digest) : String :=
  Bytes.hex (Bytes.bigEndian 4 d.value.toNat)

def debug (d : Digest) : String :=
  "Digest(" ++ d.display ++ ")"

end Digest

/-! ### Material -/

/-- The block and transaction that an output is derived from. -/
structure ChainContext where
  blockNumber : UInt32
  blockHash : String
  transactionHash : String
  deriving DecidableEq

structure SeedMaterial where
  bytes : Bytes
  deriving DecidableEq

/-- Seed material whose user identifier is still to come. -/
structure SeedDraft where
  bytes : Bytes := []
  deriving DecidableEq

namespace SeedDraft

def part (draft : SeedDraft) (bs : Bytes) : SeedDraft :=
  ⟨draft.bytes ++ bs⟩

def finish (draft : SeedDraft) (user : String) : SeedMaterial :=
  ⟨draft.bytes ++ Bytes.ofText user⟩

theorem bytes_foldl_part (draft : SeedDraft) (parts : List Bytes) :
    (parts.foldl part draft).bytes = draft.bytes ++ parts.flatten := by
  induction parts generalizing draft with
  | nil => simp
  | cons p parts ih => simp [ih, part]

end SeedDraft

namespace SeedMaterial

/-- Block hash, transaction hash, user identifier. -/
def ofContext (context : ChainContext) (user : String) : SeedMaterial :=
  ((SeedDraft.part {} (Bytes.ofText context.blockHash)).part
    (Bytes.ofText context.transactionHash)).finish user

/-- Seed, user identifier. -/
def ofSeed (seed user : String) : SeedMaterial :=
  (SeedDraft.part {} (Bytes.ofText seed)).finish user

def length (m : SeedMaterial) : Nat := m.bytes.length

def isEmpty (m : SeedMaterial) : Bool := m.bytes.isEmpty

def digest (m : SeedMaterial) : Digest :=
  ⟨(Fnv.Hasher.update {} m.bytes).finish⟩

@[simp] theorem bytes_ofContext (context : ChainContext) (user : String) :
    (ofContext context user).bytes = Bytes.ofText context.blockHash ++
      Bytes.ofText context.transactionHash ++ Bytes.ofText user := rfl

@[simp] theorem bytes_ofSeed (seed user : String) :
    (ofSeed seed user).bytes = Bytes.ofText seed ++ Bytes.ofText user := rfl

theorem digest_eq_of (m : SeedMaterial) : m.digest = Digest.of m.bytes := rfl

end SeedMaterial

/-- Where the randomness of an output comes from. -/
inductive SeedSource
  | chain (context : ChainContext)
  | explicit (seed : String)
  deriving DecidableEq

def SeedSource.material : SeedSource → String → SeedMaterial
  | .chain context, user => .ofContext context user
  | .explicit seed, user => .ofSeed seed user

end SeededTraits
