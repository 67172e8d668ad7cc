import BulkTransfer.Text.Segment

/-!
# Storage locations

A location is written `s3://bucket` or `s3://bucket/key`.  The bucket never
holds a wildcard character; a key that does stands for every object whose key
it matches.  Slashes between the bucket and the key are dropped, so a parsed
key never starts with one.
-/

namespace BulkTransfer

/-- Whether a character makes a storage key a wildcard. -/
def isWildcardChar (c : Char) : Bool :=
  c = '*' || c = '?'

/-- Whether a character makes a local path a glob pattern. -/
def isGlobChar (c : Char) : Bool :=
  c = '*' || c = '?' || c = '[' || c = ']'

/-- Whether a text holds a wildcard character. -/
def hasWildcard (s : String) : Bool :=
  s.toList.any isWildcardChar

/-- Whether a text holds a glob character. -/
def hasGlobChar (s : String) : Bool :=
  s.toList.any isGlobChar

/-- A bucket and a key: an object, a directory of objects, or a wildcard set. -/
structure Location where
  bucket : String
  key : String
deriving DecidableEq, Repr, Inhabited

/-- Why a text is no location. -/
inductive LocationError
  | notStorageUrl
  | missingBucket
  | wildcardInBucket (bucket : String)
deriving DecidableEq, Repr

namespace LocationError

def message : LocationError → String
  | notStorageUrl => "storage url should start with s3://"
  | missingBucket => "storage url should have a bucket"
  | wildcardInBucket bucket => "bucket name cannot contain wildcards: " ++ bucket

end LocationError

namespace Location

/-- What every location starts with. -/
def scheme : String := "s3://"

/-- Read the part behind the scheme. -/
def ofRest (rest : List Char) : Except LocationError Location :=
  let bucket := rest.takeWhile (· ≠ '/')
  let key := (rest.dropWhile (· ≠ '/')).dropWhile (· = '/')
  if bucket.isEmpty then .error .missingBucket
  else if bucket.any isWildcardChar then .error (.wildcardInBucket (String.ofList bucket))
  else .ok { bucket := String.ofList bucket, key := String.ofList key }

/-- Read `s3://bucket[/key]`. -/
def parse (text : String) : Except LocationError Location :=
  match List.isPrefixOf? scheme.toList text.toList with
  | none => .error .notStorageUrl
  | some rest => ofRest rest

/-- `bucket` or `bucket/key`. -/
def shortText (location : Location) : String :=
  if location.key.isEmpty then location.bucket
  else location.bucket ++ "/" ++ location.key

/-- The canonical text of a location. -/
def text (location : Location) : String :=
  scheme ++ location.shortText

/-- The same bucket with another key. -/
def withKey (location : Location) (key : String) : Location :=
  { location with key := key }

/-- The bucket without a key. -/
def bucketOnly (location : Location) : Location :=
  location.withKey ""

/-- Whether the key holds a wildcard. -/
def isWildcard (location : Location) : Bool :=
  hasWildcard location.key

/-- Whether the location names a directory: no key, or a key that ends in a slash. -/
def isDirectory (location : Location) : Bool :=
  location.key.isEmpty || location.key.toList.getLast? == some '/'

/-- The last segment of the key, empty for a directory. -/
def basename (location : Location) : String :=
  String.ofList (Text.afterLast '/' location.key.toList)

/-- The key up to its first wildcard. -/
def literalKey (location : Location) : String :=
  String.ofList (location.key.toList.takeWhile fun c => !isWildcardChar c)

end Location
end BulkTransfer
