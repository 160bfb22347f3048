import PagedHeap.Ident
import PagedHeap.Transaction.Status

/-! What can go wrong, as causes. The wording is one function per type; nothing in
the library looks at a text. -/
namespace PagedHeap

inductive IoError where
  | unallocated (page : UInt32)
  | shortRead
  | notFound
  | isADirectory
  | notADirectory
  | nulInPath
  | nameTooLong
  | farOffset
  | reported (text : String)
  deriving DecidableEq, Repr

def IoError.text : IoError → String
  | .unallocated page => s!"page {page.toNat} has not been allocated"
  | .shortRead => "failed to fill whole buffer"
  | .notFound => "No such file or directory (os error 2)"
  | .isADirectory => "Is a directory (os error 21)"
  | .notADirectory => "Not a directory (os error 20)"
  | .nulInPath => "file name contained an unexpected NUL byte"
  | .nameTooLong => "File name too long (os error 36)"
  | .farOffset => "Invalid argument (os error 22)"
  | .reported text => text

inductive Misuse where
  | recordBeyondPage (width pageSize : Nat)
  | imageLength (page : PageId) (length expected : Nat)
  | recordWidth (length : Nat) (page : PageId) (width : Nat)
  | pageFull (page : PageId)
  | noRid
  | otherPage (home here : PageId)
  | slotEmpty (slot : Nat) (page : PageId)
  | bufferLength (length expected : Nat)
  | zeroPageSize
  | tornFile (path : String) (length pageSize : Nat)
  | tableTaken (table : TableId)
  | unknownTable (table : TableId)
  | foreignPage (page : PageId) (table : TableId)
  | tableWidth (length : Nat) (table : TableId) (width : Nat)
  | pastEnd (page : PageId) (table : TableId)
  | alreadyEnded (txn : TxnId) (status : Status)
  | unknownTransaction (txn : TxnId)
  | described (text : String)
  deriving DecidableEq, Repr

def Misuse.text : Misuse → String
  | .recordBeyondPage width pageSize =>
      s!"a {width}-byte record does not fit in a {pageSize}-byte page"
  | .imageLength page length expected =>
      s!"page {page.text} has {length} bytes, expected {expected}"
  | .recordWidth length page width =>
      s!"record is {length} bytes, page {page.text} stores {width}-byte records"
  | .pageFull page => s!"page {page.text} is full"
  | .noRid => "record has no rid"
  | .otherPage home here => s!"record lives on page {home.text}, not {here.text}"
  | .slotEmpty slot page => s!"slot {slot} of page {page.text} is already empty"
  | .bufferLength length expected => s!"page buffer is {length} bytes, expected {expected}"
  | .zeroPageSize => "page size must be positive"
  | .tornFile path length pageSize =>
      s!"{path} is {length} bytes, not a multiple of the page size {pageSize}"
  | .tableTaken table => s!"table {table.toNat} is already registered"
  | .unknownTable table => s!"unknown table {table.toNat}"
  | .foreignPage page table => s!"page {page.text} does not belong to table {table.toNat}"
  | .tableWidth length table width =>
      s!"record is {length} bytes, table {table.toNat} stores {width}-byte records"
  | .pastEnd page table => s!"page {page.text} is past the end of table {table.toNat}"
  | .alreadyEnded txn status => s!"{txn.text} is already {status.text}"
  | .unknownTransaction txn => s!"unknown transaction {txn.text}"
  | .described text => text

inductive Error where
  /-- A wait for a lock ran too long. The transaction still has to be aborted. -/
  | aborted (txn : TxnId) (page : PageId)
  /-- Every resident page is changed, locked exclusively or latched. -/
  | exhausted (capacity : Nat)
  | storage (cause : IoError)
  | invalid (cause : Misuse)
  deriving DecidableEq, Repr

namespace Error

def text : Error → String
  | .aborted txn page => s!"{txn.text} aborted while waiting for a lock on page {page.text}"
  | .exhausted capacity =>
      s!"buffer pool is full: no clean page among {capacity} resident pages"
  | .storage cause => s!"storage I/O error: {cause.text}"
  | .invalid cause => s!"invalid state: {cause.text}"

def isAborted : Error → Bool
  | .aborted .. => true
  | _ => false

/-- The text with that of its source behind it, where it has one. -/
def fullText : Error → String
  | .storage cause => s!"{(storage cause).text}: {cause.text}"
  | e => e.text

end Error
end PagedHeap
