import EntityStore.Proofs.Json.Limit
import EntityStore.Sql.Document

/-! # Texts that spell a document

The text of a value is a document for the database, unless the value is nested deeper than the database
reads (`readDocument?_print`).  What can be written and read is far from that
(`Json.Storable.isDocument`). -/

namespace EntityStore

namespace Sql

theorem isDocument_source {j : Json} : isDocument j.source = true ↔ j.depth ≤ storageLimit := by
  rw [isDocument, decide_eq_true_eq, Json.depth_source]

theorem readDocument?_print (j : Json) :
    readDocument? j.print.toList = if isDocument j.source then some j.source else none := by
  rw [readDocument?, Text.untilNul_eq_self (Json.noNul_print j)]
  split
  · next h => exact Json.parse?_print (isDocument_source.mp h)
  · next h => exact Json.parse?_print_eq_none (Nat.lt_of_not_le fun hle => h (isDocument_source.mpr hle))

/-- What a reader takes is shallow enough for the database. -/
theorem isDocument_of_depth_le {j : Json} (h : j.depth ≤ Json.depthLimit) :
    isDocument j.source = true :=
  isDocument_source.mpr (Nat.le_trans h (by decide))

end Sql

theorem Json.Storable.isDocument {j : Json} (h : j.Storable) : Sql.isDocument j.source = true :=
  Sql.isDocument_of_depth_le h.depth

end EntityStore
