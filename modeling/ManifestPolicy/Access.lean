import ManifestPolicy.Path
import ManifestPolicy.Text.Utf8
import ManifestPolicy.Toml.Limits

/-!
# Access to files

What comes of trying to read the file that a path leads to. There may be no file, the system
may refuse, and there are paths that are never handed to the system at all. Who reads a file
decides which of these it makes up for. What nobody makes up for is an escape.

Things that are neither files nor directories are left out.

## Main definitions

* `Access`: what comes of trying to read a file.
* `Path.malformed?`: the paths that the system is not asked for.
* `Escape`: the errors that nobody makes up for.
-/

namespace ManifestPolicy

/-- What comes of trying to read the file that a path leads to. -/
inductive Access
  /-- There is a file with these octets. -/
  | file (octets : List UInt8)
  /-- There is nothing, or a directory. -/
  | missing
  /-- The system refuses to follow the path or to read the file. -/
  | failed (error : Text)
  /-- The system is not asked for the path. -/
  | malformed (error : Text)
deriving DecidableEq

/-- What keeps a path from being handed to the system: a null code, or a surrogate that does
not stand for an octet. -/
def Path.malformed? (p : Path) : Option Text :=
  if p.display.any fun c => c.isSurrogate && !c.between 0xDC80 0xDCFF then
    some "surrogates not allowed"
  else if p.display.any fun c => c.val = 0 then some "embedded null byte"
  else none

/-- An error that nobody makes up for, so that it ends the program. -/
inductive Escape
  /-- A file is not UTF-8. -/
  | encoding (fault : Utf8.Fault)
  /-- The system refuses a file. -/
  | system (error : Text)
  /-- The path of a file is malformed. -/
  | path (error : Text)
  /-- The reader of settings files reaches a limit. -/
  | excess (excess : Toml.Excess)
deriving DecidableEq

/-- The wording of an escape. -/
def Escape.message : Escape → Text
  | .encoding fault => fault.message
  | .system error => error
  | .path error => error
  | .excess (.digits count most) =>
    Text.ofString "Exceeds the limit (" ++ Text.ofInt most ++
      Text.ofString " digits) for integer string conversion: value has " ++ Text.ofInt count ++
      Text.ofString " digits; use sys.set_int_max_str_digits() to increase the limit"
  | .excess .nesting => "maximum recursion depth exceeded"

end ManifestPolicy
