import Rowstore.Identifier
import Rowstore.ColumnType
import Rowstore.AggregateFunction

/-!
# Errors

Why an operation failed, with the message for each cause. The last two causes have no counterpart
among the answers of a sound database: pages of an unusable size, and a computation that was given
too few steps.
-/

namespace Rowstore

/-- Why an operation failed. -/
inductive DbError
  /-- A file could not be opened, or a place in it not be reached. -/
  | io
  | shortRead (pageNumber read expected : Nat)
  /-- The bytes of a page do not decode, or the page does not belong to the file. -/
  | invalidPage (page : PageId)
  | foreignTuple (record : RecordId)
  | missingRecordId
  | slotNotOccupied (page : PageId) (slot : Nat)
  | pageFull (page : PageId)
  | tupleSchemaMismatch
  | stringTooLong (length max : Nat)
  | schemaMismatch (expected found : String)
  | noSuchElement
  | operatorNotOpen
  | fieldIndexOutOfRange (index length : Nat)
  | fieldNotSet (index : Nat)
  | typeMismatch (expected found : ColumnType)
  | illegalAggregate (fn : AggregateFunction) (type : ColumnType)
  | aggregateOverflow (value : Int)
  | tableNotFound (table : TableId)
  | tableNameNotFound (name : String)
  | bufferPoolFull
  | pageSizeMismatch (expected actual : Nat)
  /-- Pages of no bytes cannot be counted, and pages that memory cannot address not be held. -/
  | badPageSize
  /-- The steps allowed for a computation were used up before it ended. -/
  | unfinished
deriving DecidableEq

/-- What is told about a cause. -/
def DbError.message : DbError → String
  | io => "I/O error"
  | shortRead page read expected => s!"Short read on page {page}: got {read} of {expected} bytes"
  | invalidPage page => "Invalid page image for " ++ page.text
  | foreignTuple record => "Tuple at " ++ record.text ++ " does not belong to this file"
  | missingRecordId => "Tuple has no record id"
  | slotNotOccupied page slot => s!"Slot {slot} on " ++ page.text ++ " is not occupied"
  | pageFull page => "Page " ++ page.text ++ " has no empty slot"
  | tupleSchemaMismatch => "Tuple schema does not match the page schema"
  | stringTooLong length max => s!"String of {length} bytes exceeds the maximum of {max}"
  | schemaMismatch expected found => s!"Schema mismatch: expected {expected}, found {found}"
  | noSuchElement => "No such element"
  | operatorNotOpen => "Operator is not open"
  | fieldIndexOutOfRange index length => s!"Field index {index} out of range for {length} fields"
  | fieldNotSet index => s!"Field {index} is not set"
  | typeMismatch expected found =>
    "Type mismatch: expected " ++ expected.text ++ ", found " ++ found.text
  | illegalAggregate fn type =>
    "Aggregate " ++ fn.text ++ " is not supported over " ++ type.text ++ " fields"
  | aggregateOverflow value => s!"Aggregate result {value} does not fit an INT field"
  | tableNotFound table => "Table " ++ table.text ++ " not found"
  | tableNameNotFound name => s!"Table named {name} not found"
  | bufferPoolFull => "Buffer pool is full, no evictable pages available"
  | pageSizeMismatch expected actual =>
    s!"Page size {actual} does not match configured page size {expected}"
  | badPageSize => "Pages have an unusable size"
  | unfinished => "Out of steps"

end Rowstore
