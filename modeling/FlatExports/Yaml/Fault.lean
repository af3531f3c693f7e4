import FlatExports.Text.Quoted

/-!
What is wrong with a YAML text.

A `Yaml.Fault` is a breach of the format.  A `ScalarFault` is a scalar of a
well-formed text whose tag promises a value that its characters do not spell.
-/

namespace FlatExports.Yaml

inductive ScalarFault where
  | emptyNumber
  | notBoolean
  | notMoment
  | notInteger (base : Nat) (text : String)
  | notReal (text : String)
  | tooManyDigits (count : Nat)
  | codePoint
  | year (year : Nat)
  | month
  | day
  | hour
  | minute
  | second
  | offset (shown : String)
  deriving DecidableEq, Repr

def ScalarFault.message : ScalarFault → String
  | .emptyNumber => "number without characters"
  | .notBoolean => "not a boolean"
  | .notMoment => "not a timestamp"
  | .notInteger base text =>
      "invalid literal for int() with base " ++ toString base ++ ": " ++ Text.shown text
  | .notReal text => "could not convert string to float: " ++ Text.shown text
  | .tooManyDigits count =>
      "Exceeds the limit (4300 digits) for integer string conversion: value has " ++
        toString count ++ " digits; use sys.set_int_max_str_digits() to increase the limit"
  | .codePoint => "chr() arg not in range(0x110000)"
  | .year number => "year " ++ toString number ++ " is out of range"
  | .month => "month must be in 1..12"
  | .day => "day is out of range for month"
  | .hour => "hour must be in 0..23"
  | .minute => "minute must be in 0..59"
  | .second => "second must be in 0..59"
  | .offset shown =>
      "offset must be a timedelta strictly between -timedelta(hours=24) and " ++
        "timedelta(hours=24), not " ++ shown ++ "."

inductive Fault where
  | unprintable (c : Char)
  | strayCharacter (c : Char)
  | misplacedEntry
  | misplacedKey
  | misplacedValue
  | missingColon
  | badDirective
  | badName
  | badTag
  | badHeader
  | badEscape
  | unclosedQuote
  | unexpectedToken
  | unknownHandle (handle : String)
  | unknownAlias (name : String)
  | repeatedAnchor (name : String)
  | severalDocuments
  | unknownTag (name : String)
  | wrongKind
  | badMerge
  | badPair
  | badBinary
  | badKey
  | scalar (fault : ScalarFault)
  deriving DecidableEq, Repr

def Fault.message : Fault → String
  | .unprintable _ => "special characters are not allowed"
  | .strayCharacter c => "found character that cannot start any token: " ++ Text.shown c.toString
  | .misplacedEntry => "sequence entries are not allowed here"
  | .misplacedKey => "mapping keys are not allowed here"
  | .misplacedValue => "mapping values are not allowed here"
  | .missingColon => "could not find expected ':'"
  | .badDirective => "malformed directive"
  | .badName => "expected alphabetic or numeric character"
  | .badTag => "malformed tag"
  | .badHeader => "expected chomping or indentation indicators"
  | .badEscape => "found unknown escape character"
  | .unclosedQuote => "found unexpected end of quoted scalar"
  | .unexpectedToken => "unexpected token"
  | .unknownHandle handle => "found undefined tag handle " ++ Text.shown handle
  | .unknownAlias name => "found undefined alias " ++ Text.shown name
  | .repeatedAnchor name => "found duplicate anchor " ++ Text.shown name
  | .severalDocuments => "expected a single document in the stream"
  | .unknownTag name => "could not determine a constructor for the tag " ++ Text.shown name
  | .wrongKind => "node of another kind than its tag"
  | .badMerge => "expected a mapping or list of mappings for merging"
  | .badPair => "expected a mapping of length 1"
  | .badBinary => "failed to decode base64 data"
  | .badKey => "found unhashable key"
  | .scalar fault => fault.message

end FlatExports.Yaml
