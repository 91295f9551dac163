/-!
# Status

The error codes and the status value that every fallible operation reports
(`utils/status.h`).  A call that succeeds returns its value; `Status` is the
error side, so `Ok` has no constructor here.
-/

namespace Kvdb

/-- `StatusCode`, without its success value. -/
inductive StatusCode where
  | useAfterClose
  | invalidState
  | dataTypeOverflow
  | overlappingKeys
  | badAccess
  | underflow
  | invalidArgument
  | failedPrecondition
  | notFound
  | alreadyExists
  | notSupported
  | internalError
  | invariantViolation
  | duplicate
  | outOfMemory
  | allocationFailed
  | invalidAlignment
  | allocationTooLarge
  | bufferTooSmall
  | nullPointer
  | badAlloc
  | invalidOffset
  | invalidReadSize
  | sizeExceedsBlockSize
  | sizeExceedsBlockBoundary
  | ioError
  | openFailed
  | readFailed
  | writeFailed
  | syncFailed
  | closeFailed
  | renameFailed
  | directorySyncFailed
  | getPositionFailed
  | getSizeFailed
  | permissionDenied
  | seekFailed
  | corruption
  | badMagic
  | unsupportedVersion
  | unsupportedBlockSize
  | checksumMismatch
  | invalidHeader
  | invalidFooter
  | invalidBlockType
  | invalidBlockAlignment
  | invalidSectionOffset
  | invalidSectionSize
  | invalidPayloadSize
  | offsetOutOfRange
  | offsetOverlap
  | unexpectedEOF
  | badFileDescriptor
  | insertionFailed
  | socketCreationFailed
  | socketFailure
  | socketOptionFailed
  | socketBindFailed
deriving DecidableEq, Repr

structure Status where
  code : StatusCode
  message : String
deriving DecidableEq, Repr

/-- `{:08x}` of the format strings. -/
def hex8 (x : UInt32) : String := String.ofList (List.leftpad 8 '0' (Nat.toDigits 16 x.toNat))

end Kvdb
