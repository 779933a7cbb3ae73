import SeededTraits.Interchange
import SeededTraits.Proofs.Json.Skim

/-! Digests, containers and chain contexts are read back from their own texts, a context whatever
other members its record has and wherever its own ones stand. -/
namespace SeededTraits

/-! ### Numbers and names -/

namespace Interchange

variable {width : Nat} {rest : Bytes}

theorem uint32_write (w : UInt32) (h : Json.Number.Ends rest) :
    uint32 ((Json.Number.ofNat w.toNat).write ++ rest) = some (w, rest) := by
  have number_read := Json.Number.read_write (Json.Number.wellFormed_ofNat w.toNat) h
  obtain ⟨b, t, hb, hstart⟩ := Json.Number.write_start (Json.Number.wellFormed_ofNat w.toNat)
  have word : (Json.Number.ofNat w.toNat).uint32? = some w := by
    simp [Json.Number.uint32?, Json.Number.ofNat, Json.Number.isInteger, Json.rowValue_eq,
      Json.Number.decimalValue_decimalDigits, w.toNat_lt]
  rw [hb, List.cons_append] at number_read ⊢
  simp [uint32, Json.skipBlank_cons (Json.Number.start_cases hstart).1, Reader.filterMap,
    number_read, word]

theorem text_write {s : String} (h : (Json.Quoted.write s).length ≤ width) :
    text width (Json.Quoted.write s ++ rest) = some (s, rest) := by
  have short := Nat.lt_of_lt_of_le (Json.Quoted.length_text_lt_write s) h
  have content_read := Json.Quoted.read_write s width rest short
  simp [text, Json.Quoted.write, Json.mark_self (b := Ascii.quote) (by decide), content_read]

end Interchange

theorem Digest.ofJson?_toJson (d : Digest) : ofJson? d.toJson = some d := by
  have number_read := Interchange.uint32_write d.value Json.Number.ends_nil
  rw [List.append_nil] at number_read
  simp [ofJson?, toJson, Json.whole?, number_read, Ascii.skipBlank]

theorem Container.ofJson?_toJson (c : Container) : ofJson? c.toJson = some c := by
  cases c <;> decide +kernel

/-! ### Records -/

namespace ChainContext

open Interchange (ContextMember)
open Json (memberBytes length_memberBytes)

def members (c : ChainContext) : List (String × Json) :=
  [("block_number", .number (.ofNat c.blockNumber.toNat)), ("block_hash", .string c.blockHash),
    ("transaction_hash", .string c.transactionHash)]

/-- What a member under a key counts for in a record of `c`. -/
def role (c : ChainContext) (key : String) : ContextMember :=
  if key = "block_number" then .blockNumber c.blockNumber
  else if key = "block_hash" then .blockHash c.blockHash
  else if key = "transaction_hash" then .transactionHash c.transactionHash
  else .unknown

/-- A member that says nothing of a context. -/
structure Foreign (m : String × Json) : Prop where
  other : m.1 ≠ "block_number" ∧ m.1 ≠ "block_hash" ∧ m.1 ≠ "transaction_hash"
  plain : m.2.isPlain = true
  readable : ∃ size depth, Json.Readable size depth m.2

theorem Foreign.role {m : String × Json} (h : Foreign m) (c : ChainContext) :
    c.role m.1 = .unknown := by
  obtain ⟨number, block, transaction⟩ := h.other
  rw [ChainContext.role, if_neg number, if_neg block, if_neg transaction]

theorem toJson_eq_write (c : ChainContext) : c.toJson = (Json.object c.members).write := by
  rw [Json.write_object]
  rfl

variable {c : ChainContext} {m : String × Json} {width : Nat} {rest : Bytes}

theorem read_memberBytes (hwidth : (memberBytes m).length ≤ width) (rest : Bytes) :
    ContextMember.read width (memberBytes m ++ rest) =
      if m.1 = "block_number" then
        Reader.map .blockNumber Interchange.uint32 (m.2.write ++ rest)
      else if m.1 = "block_hash" then
        Reader.map .blockHash (Interchange.text width) (m.2.write ++ rest)
      else if m.1 = "transaction_hash" then
        Reader.map .transactionHash (Interchange.text width) (m.2.write ++ rest)
      else Reader.map (fun _ => .unknown) (Json.Skim.item width) (m.2.write ++ rest) := by
  have parts := length_memberBytes m
  have key : Interchange.text width (memberBytes m ++ rest) =
      some (m.1, Ascii.colon :: (m.2.write ++ rest)) := by
    rw [memberBytes, List.append_assoc, List.cons_append]
    exact Interchange.text_write (by omega)
  have colon := Json.mark_self (b := Ascii.colon) (by decide) (m.2.write ++ rest)
  simp only [ContextMember.read, key, colon]

theorem read_member (h : m ∈ c.members) (hwidth : (memberBytes m).length ≤ width)
    (hrest : Json.Number.Ends rest) :
    ContextMember.read width (memberBytes m ++ rest) = some (c.role m.1, rest) := by
  have parts := length_memberBytes m
  have short : m.2.write.length ≤ width := by omega
  have text_read (s : String) (hs : (Json.string s).write.length ≤ width) :
      Interchange.text width ((Json.string s).write ++ rest) = some (s, rest) :=
    Interchange.text_write hs
  rw [read_memberBytes hwidth]
  simp only [members, List.mem_cons, List.not_mem_nil, or_false] at h
  rcases h with rfl | rfl | rfl
  · simp [role, Json.write, Reader.map, Interchange.uint32_write _ hrest]
  · simpa [role, Json.write, Reader.map] using text_read c.blockHash short
  · simpa [role, Json.write, Reader.map] using text_read c.transactionHash short

/-- A reader of documents that may nest as deep as the member does makes it out, and so it is passed
over. -/
theorem read_foreign (h : Foreign m) (hwidth : (memberBytes m).length ≤ width)
    (hrest : Json.Number.Ends rest) :
    ContextMember.read width (memberBytes m ++ rest) = some (c.role m.1, rest) := by
  have parts := length_memberBytes m
  obtain ⟨number, block, transaction⟩ := h.other
  obtain ⟨size, depth, readable⟩ := h.readable
  have shallow : Json.legible depth m.2 = true :=
    Json.legible_eq_true.2 ⟨h.plain, readable.nesting_le⟩
  have document_read : Json.document m.2.write.length depth (m.2.write ++ rest) = _ :=
    Json.document_write readable (Nat.le_refl _) fun _ _ => hrest
  rw [if_pos shallow] at document_read
  have passed : Json.Skim.item width (m.2.write ++ rest) = some ((), rest) :=
    Json.Skim.item_of_document document_read (by rw [List.length_append]; omega)
  rw [read_memberBytes hwidth, if_neg number, if_neg block, if_neg transaction, h.role]
  simp [Reader.map, passed]

theorem assemble?_role {members others : List (String × Json)}
    (h : members.Perm (c.members ++ others)) (foreign : ∀ m ∈ others, Foreign m) :
    ContextMember.assemble? (members.map fun m => c.role m.1) = some c := by
  have known : c.members.map (fun m => c.role m.1) =
      [.blockNumber c.blockNumber, .blockHash c.blockHash, .transactionHash c.transactionHash] := by
    simp [ChainContext.members, role]
  have single {α : Type} (f : ContextMember → Option α) (skips : f .unknown = none) {a : α}
      (once : (c.members.map fun m => c.role m.1).filterMap f = [a]) :
      (members.map fun m => c.role m.1).filterMap f = [a] := by
    have nothing : (others.map fun m => c.role m.1).filterMap f = [] := by
      simp only [List.filterMap_eq_nil_iff, List.forall_mem_map]
      intro m hm
      rw [(foreign m hm).role, skips]
    have perm := (h.map fun m => c.role m.1).filterMap f
    rw [List.map_append, List.filterMap_append, once, nothing] at perm
    exact List.perm_singleton.1 perm
  simp only [ContextMember.assemble?, single ContextMember.blockNumber? rfl (by rw [known]; rfl),
    single ContextMember.blockHash? rfl (by rw [known]; rfl),
    single ContextMember.transactionHash? rfl (by rw [known]; rfl)]

/-- A context is read from a record in which its members stand in whatever order, with any other
members between them. -/
theorem ofJson?_write {members others : List (String × Json)}
    (h : members.Perm (c.members ++ others)) (foreign : ∀ m ∈ others, Foreign m) :
    ofJson? (Json.object members).write = some c := by
  obtain ⟨size, hsize⟩ : ∃ size, (Json.object members).write.length = size := ⟨_, rfl⟩
  have room := hsize
  rw [Json.length_write_object] at room
  have few := Json.length_le_rowLength (fun m => (memberBytes m).length) members
  have item (m : String × Json) (hm : m ∈ members) (x : UInt8)
      (hx : x = Ascii.comma ∨ x = Ascii.closeBrace) (rest : Bytes) :
      ContextMember.read size (memberBytes m ++ x :: rest) =
        if true then some (c.role m.1, x :: rest) else none := by
    have short := Json.le_rowLength (fun m => (memberBytes m).length) hm
    have ends := Json.ends_of_close (hx.imp id .inr) rest
    rcases List.mem_append.1 (h.subset hm) with known | other
    · exact read_member known (by omega) ends
    · exact read_foreign (foreign m other) (by omega) ends
  have listed : Json.sequence (ContextMember.read size) Ascii.closeBrace size
      (Json.commaSeparated (members.map memberBytes) ++ [Ascii.closeBrace]) =
        if members.all (fun _ => true) then some (members.map fun m => c.role m.1, []) else none :=
    Json.sequence_commaSeparated (by decide) (by decide)
      (fun m _ => ⟨Ascii.quote, _, rfl, by decide, by decide⟩) item (by omega) []
  have opened (bs : Bytes) := Json.mark_self (b := Ascii.openBrace) (by decide) bs
  rw [ofJson?, hsize, Json.write_object]
  simp [Json.whole?, Interchange.context, opened, Reader.filterMap, listed,
    assemble?_role h foreign, Ascii.skipBlank]

theorem ofJson?_toJson (c : ChainContext) : ofJson? c.toJson = some c := by
  rw [toJson_eq_write]
  exact ofJson?_write (.refl _) (by simp)

end ChainContext
end SeededTraits
