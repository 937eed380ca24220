/-
# Exceptions

The exception classes the modelled code raises and catches, with their bases,
and an exception: its class, its message, and the `diagnostics` of a card
error.
-/
import GpgMeister.Lib.Text

namespace GpgMeister

/-- The exception classes. -/
inductive ErrorClass
  | exception
  | serviceError
  | gpgServiceError
  | gpgPassphraseError
  | gpgKeyNotFoundError
  | gpgValidationError
  | gpgProcessError
  | gpgCardError
  | gpgCardPinError
  | vaultServiceError
  | vaultChecksumMismatchError
  | fidoServiceError
  | fidoUnavailableError
  | fidoPinError
  | fidoTouchError
  | fidoCredentialError
  | keyUnlockError
  | noUnlockMethodError
  | cryptoError
  | kdfError
  | decryptionError
  | vaultFormatError
  | auditLogError
  | metadataStoreError
  | valueError
  | unicodeDecodeError
  | unicodeEncodeError
  | jsonDecodeError
  | validationError
  | runtimeError
  | recursionError
  | typeError
  | attributeError
  | keyError
  | indexError
  | overflowError
  | structError
  | databaseError
  | osError
  | fileNotFoundError
  | timeoutError
  | fileLockTimeoutError
  deriving DecidableEq, Repr

namespace ErrorClass

/-- The base class. -/
def base : ErrorClass → Option ErrorClass
  | exception => none
  | gpgServiceError | vaultServiceError | fidoServiceError | keyUnlockError => some serviceError
  | gpgPassphraseError | gpgKeyNotFoundError | gpgValidationError | gpgProcessError | gpgCardError =>
    some gpgServiceError
  | gpgCardPinError => some gpgCardError
  | vaultChecksumMismatchError => some vaultServiceError
  | fidoUnavailableError | fidoPinError | fidoTouchError | fidoCredentialError => some fidoServiceError
  | noUnlockMethodError => some keyUnlockError
  | kdfError | decryptionError | vaultFormatError => some cryptoError
  | unicodeDecodeError | unicodeEncodeError | jsonDecodeError | validationError => some valueError
  | recursionError => some runtimeError
  | fileNotFoundError | timeoutError => some osError
  | fileLockTimeoutError => some timeoutError
  | _ => some exception

/-- `cls.__name__` -/
def name : ErrorClass → Str
  | exception => lit "Exception"
  | serviceError => lit "ServiceError"
  | gpgServiceError => lit "GPGServiceError"
  | gpgPassphraseError => lit "GPGPassphraseError"
  | gpgKeyNotFoundError => lit "GPGKeyNotFoundError"
  | gpgValidationError => lit "GPGValidationError"
  | gpgProcessError => lit "GPGProcessError"
  | gpgCardError => lit "GPGCardError"
  | gpgCardPinError => lit "GPGCardPinError"
  | vaultServiceError => lit "VaultServiceError"
  | vaultChecksumMismatchError => lit "VaultChecksumMismatchError"
  | fidoServiceError => lit "FidoServiceError"
  | fidoUnavailableError => lit "FidoUnavailableError"
  | fidoPinError => lit "FidoPinError"
  | fidoTouchError => lit "FidoTouchError"
  | fidoCredentialError => lit "FidoCredentialError"
  | keyUnlockError => lit "KeyUnlockError"
  | noUnlockMethodError => lit "NoUnlockMethodError"
  | cryptoError => lit "CryptoError"
  | kdfError => lit "KDFError"
  | decryptionError => lit "DecryptionError"
  | vaultFormatError => lit "VaultFormatError"
  | auditLogError => lit "AuditLogError"
  | metadataStoreError => lit "MetadataStoreError"
  | valueError => lit "ValueError"
  | unicodeDecodeError => lit "UnicodeDecodeError"
  | unicodeEncodeError => lit "UnicodeEncodeError"
  | jsonDecodeError => lit "JSONDecodeError"
  | validationError => lit "ValidationError"
  | runtimeError => lit "RuntimeError"
  | recursionError => lit "RecursionError"
  | typeError => lit "TypeError"
  | attributeError => lit "AttributeError"
  | keyError => lit "KeyError"
  | indexError => lit "IndexError"
  | overflowError => lit "OverflowError"
  | structError => lit "error"
  | databaseError => lit "DatabaseError"
  | osError => lit "OSError"
  | fileNotFoundError => lit "FileNotFoundError"
  | timeoutError => lit "TimeoutError"
  | fileLockTimeoutError => lit "FileLockTimeoutError"

/-- `issubclass(c, d)`: no class is more than four steps below `Exception`. -/
def isSubclass (c d : ErrorClass) : Bool := go 4 c
where
  go : ℕ → ErrorClass → Bool
    | 0, c => c = d
    | n + 1, c => c = d || (base c).any (go n)

end ErrorClass

/-- A raised exception. -/
structure Exc where
  cls : ErrorClass
  message : Str
  diagnostics : Str := []
  deriving DecidableEq, Repr

/-- Whether `except (classes…)` catches the exception. -/
def Exc.isA (e : Exc) (classes : List ErrorClass) : Bool := classes.any e.cls.isSubclass

end GpgMeister
