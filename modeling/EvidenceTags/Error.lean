import EvidenceTags.Path
import EvidenceTags.Tag

/-!
# Errors

An error states its cause: what the operating system answered, what is wrong with a text or a
snapshot body, which tag is not live. The wording is given once, by `sentence` for the kind of the
error and by `message` for each cause.
-/

namespace EvidenceTags

/-- What the operating system answers when it refuses a file operation. -/
inductive OsError where
  | notFound
  | busy
  | exists
  | notDirectory
  | isDirectory
  | nameTooLong
  | tooManyLinks
  /-- The path holds the character that ends paths. -/
  | nulInName
  /-- Any other answer, in the system's own words. -/
  | other (text : String)
deriving DecidableEq, Repr

/-- The system's own text for an answer. -/
def OsError.message : OsError → String
  | .notFound => "No such file or directory (os error 2)"
  | .busy => "Device or resource busy (os error 16)"
  | .exists => "File exists (os error 17)"
  | .notDirectory => "Not a directory (os error 20)"
  | .isDirectory => "Is a directory (os error 21)"
  | .nameTooLong => "File name too long (os error 36)"
  | .tooManyLinks => "Too many levels of symbolic links (os error 40)"
  | .nulInName => "file name contained an unexpected NUL byte"
  | .other text => text

/-- Why a file could not be read or written. -/
inductive FileFault where
  /-- The operating system refused. -/
  | system (error : OsError)
  /-- A file was to be written under a path that does not end in a name. -/
  | noFileName
  /-- A text file does not hold UTF-8. -/
  | notText
deriving DecidableEq, Repr

def FileFault.message : FileFault → String
  | .system error => error.message
  | .noFileName => "path has no file name"
  | .notText => "stream did not contain valid UTF-8"

/-- Why bytes are not UTF-8 text. The index is the length of the longest well-formed start. -/
inductive TextFault where
  /-- The `width` bytes at `index` do not begin any well-formed sequence together with the next. -/
  | illFormed (width index : Nat)
  /-- The text ends inside a sequence that is well formed so far. -/
  | incomplete (index : Nat)
deriving DecidableEq, Repr

def TextFault.message : TextFault → String
  | .illFormed width index =>
    "invalid utf-8 sequence of " ++ toString width ++ " bytes from index " ++ toString index
  | .incomplete index => "incomplete utf-8 byte sequence from index " ++ toString index

/-- Why the bytes of a snapshot body do not form a snapshot. -/
inductive DecodeFault where
  /-- The input ends inside a number or before an announced element. -/
  | endOfInput
  /-- A text is announced that is longer than the rest of the input. -/
  | textTooLong
  | notBool (byte : UInt8)
  | notText (fault : TextFault)
  /-- A set ends before its announced containers do. -/
  | setTooShort
  | unknownSetLayout
  | tooManyContainers
  /-- A run of items reaches beyond its container. -/
  | runTooLong
  | duplicateItem (index : Nat)
  | unorderedItem (index : Nat)
  | cardinality (expected actual : Nat)
deriving DecidableEq, Repr

def DecodeFault.message : DecodeFault → String
  | .endOfInput => "io error: unexpected end of file"
  | .textTooLong => "io error: "
  | .notBool byte =>
    "invalid u8 while decoding bool, expected 0 or 1, found " ++ toString byte.toNat
  | .notText fault => "string is not valid utf8: " ++ fault.message
  | .setTooShort => "failed to fill whole buffer"
  | .unknownSetLayout => "unknown cookie value"
  | .tooManyContainers => "size is greater than supported"
  | .runTooLong => "invalid data"
  | .duplicateItem index => "Duplicate element found at index: " ++ toString index
  | .unorderedItem index => "An element was out of order at index: " ++ toString index
  | .cardinality expected actual =>
    "Expected cardinality was " ++ toString expected ++ " but was " ++ toString actual

/-- The kinds of errors that a tag store reports. -/
inductive ErrorKind where
  | io
  | encode
  | decode
  | badMagic
  | unsupportedVersion
  | unknownTag
  | worker
  | config
deriving DecidableEq, Repr

/-- The sentence that reports an error of a kind, around a detail where the kind has one. -/
def ErrorKind.sentence (detail : String) : ErrorKind → String
  | .io => "I/O error on " ++ detail
  | .encode => "failed to encode snapshot: " ++ detail
  | .decode => "failed to decode snapshot: " ++ detail
  | .badMagic => "not a tag snapshot (bad magic)"
  | .unsupportedVersion => "unsupported snapshot format version " ++ detail
  | .unknownTag => "unknown tag id " ++ detail
  | .worker => "failed to start save worker: " ++ detail
  | .config => "config error: " ++ detail

/-- An error of a tag store, by its cause. -/
inductive StoreError where
  | io (path : Path) (fault : FileFault)
  | decode (fault : DecodeFault)
  | badMagic
  | unsupportedVersion (version : UInt16)
  /-- An operation addressed a tag that is not live. -/
  | unknownTag (tag : TagId)
  | config (reason : String)
deriving DecidableEq, Repr

namespace StoreError

/-- The kind of an error. -/
def kind : StoreError → ErrorKind
  | .io .. => .io
  | .decode .. => .decode
  | .badMagic => .badMagic
  | .unsupportedVersion .. => .unsupportedVersion
  | .unknownTag .. => .unknownTag
  | .config .. => .config

/-- What an error says beyond its kind. -/
def detail : StoreError → String
  | .io path fault => path.text ++ ": " ++ fault.message
  | .decode fault => fault.message
  | .badMagic => ""
  | .unsupportedVersion version => toString version.toNat
  | .unknownTag tag => toString tag
  | .config reason => reason

/-- The text of an error. -/
def message (error : StoreError) : String := error.kind.sentence error.detail

end StoreError

/-- Of two steps that may fail, both have succeeded if there is a result. -/
theorem exists_of_bind_eq_ok {ε α β : Type} {first : Except ε α} {second : α → Except ε β} {b : β}
    (h : first >>= second = .ok b) : ∃ a, first = .ok a ∧ second a = .ok b := by
  cases first with
  | error e => cases h
  | ok a => exact ⟨a, rfl, h⟩

end EvidenceTags
