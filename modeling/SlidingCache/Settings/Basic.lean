import SlidingCache.Json.Value
import SlidingCache.Settings.EnvFile

/-!
# Settings

What a service is told about its cache. A setting is taken from the first source that has it: the
arguments given in code, the environment, a file of environment variables; else it has its default.
Names of arguments and variables count in any letter case.

* `Setting`: the settings in order, with their names;
* `Sources.find?`: the value of a setting;
* `Settings.load`: checks all of them and gives every fault, in order.
-/

namespace SlidingCache

inductive Setting where
  | storeBackend
  | redisUrl
  | space
  | bucket
  | keyPrefix
  | keyEncoder
  | enableMetrics
  | logLevel
  | logJson
  deriving DecidableEq

namespace Setting

def all : List Setting :=
  [storeBackend, redisUrl, space, bucket, keyPrefix, keyEncoder, enableMetrics, logLevel,
    logJson]

def name : Setting → Text
  | storeBackend => "store_backend"
  | redisUrl => "redis_url"
  | space => "namespace"
  | bucket => "bucket"
  | keyPrefix => "key_prefix"
  | keyEncoder => "key_encoder"
  | enableMetrics => "enable_metrics"
  | logLevel => "log_level"
  | logJson => "log_json"

/-- A name that a setting shares with other programs. -/
def sharedName? : Setting → Option Text
  | redisUrl => some "REDIS_URL"
  | enableMetrics => some "ENABLE_METRICS"
  | _ => none

/-- The variable of a setting, in lower case. -/
def variableName (s : Setting) : Text :=
  match s.sharedName? with
  | some shared => shared.lowerAscii
  | none => ("revcache_" : Text) ++ s.name

/-- The name of the argument that gives the setting. Faults go by it, wherever the value is from. -/
def argumentName (s : Setting) : Text := s.sharedName?.getD s.name

end Setting

/-! ## Sources -/

structure Sources where
  arguments : List (Text × Json) := []
  environment : List (Text × Text) := []
  file : Option Text := none

namespace Sources

/-- The Kelvin sign, whose lower case is the letter k. -/
def kelvin : CodePoint := ⟨0x212A, by decide⟩

/-- The lower case of a name, as far as it can be that of a variable. -/
def lowerName (t : Text) : Text :=
  Text.lowerAscii (t.map fun c => if c = kelvin then CodePoint.ofChar 'k' else c)

/-- The last value under a name in any letter case. -/
def ofVariable? {α : Type} (bindings : List (Text × α)) (name : Text) : Option α :=
  (bindings.reverse.find? fun row => lowerName row.1 = name).map Prod.snd

def fileBindings (s : Sources) : Table Text (Option Text) := match s.file with
  | some file => EnvFile.read s.environment file
  | none => []

/-- The argument of a name: the one that is spelled like it, or else the first in another letter
case. -/
def argument? (s : Sources) (name : Text) : Option Json :=
  Json.get? name s.arguments
    <|> (s.arguments.find? fun row => lowerName row.1 = lowerName name).map Prod.snd

/-- The value of a setting, from the first source that has it. -/
def find? (s : Sources) (x : Setting) : Option Json :=
  s.argument? x.argumentName
    <|> (ofVariable? s.environment x.variableName
      <|> (ofVariable? s.fileBindings x.variableName).bind id).map .str

end Sources

/-! ## Checking -/

inductive SettingFault where
  | notText
  | notFlag
  /-- A text or number that is neither yes nor no. -/
  | unclearFlag
  | blankBucket
  deriving DecidableEq

namespace SettingFault

def kind : SettingFault → Text
  | notText => "string_type"
  | notFlag => "bool_type"
  | unclearFlag => "bool_parsing"
  | blankBucket => "value_error"

def message : SettingFault → Text
  | notText => "Input should be a valid string"
  | notFlag => "Input should be a valid boolean"
  | unclearFlag => "Input should be a valid boolean, unable to interpret input"
  | blankBucket => "Value error, bucket must be set"

end SettingFault

def yesWords : List Text := ["true", "t", "1", "yes", "y", "on"]

def noWords : List Text := ["false", "f", "0", "no", "n", "off"]

/-- Numbers of 64 bits with a sign are looked at as flags, others are no flags at all. -/
def flagOfNumber (n : Int) : Except SettingFault Bool :=
  if n = 0 then .ok false
  else if n = 1 then .ok true
  else if -9223372036854775808 ≤ n ∧ n ≤ 9223372036854775807 then .error .unclearFlag
  else .error .notFlag

/-- Yes or no, as a truth value, one of the words for them, zero or one. -/
def flag : Json → Except SettingFault Bool
  | .bool b => .ok b
  | .str t =>
    if yesWords.contains t.lowerAscii then .ok true
    else if noWords.contains t.lowerAscii then .ok false
    else .error .unclearFlag
  | .int n => flagOfNumber n
  | .float negative b => match b.whole? with
    | some n => flagOfNumber (if negative then -n else n)
    | none => .error .notFlag
  | _ => .error .notFlag

def textOf : Json → Except SettingFault Text
  | .str t => .ok t
  | _ => .error .notText

structure Settings where
  storeBackend : Text := "redis"
  redisUrl : Text := "redis://localhost:6379/0"
  space : Text := "revcache"
  bucket : Text := "cache"
  keyPrefix : Text := []
  keyEncoder : Text := "percent"
  enableMetrics : Bool := true
  logLevel : Text := "INFO"
  logJson : Bool := true
  deriving DecidableEq, Inhabited

namespace Settings

/-- The settings with one of them set to a value. -/
def set (s : Settings) (x : Setting) (v : Json) : Except SettingFault Settings :=
  match x with
  | .storeBackend => return { s with storeBackend := ← textOf v }
  | .redisUrl => return { s with redisUrl := ← textOf v }
  | .space => return { s with space := ← textOf v }
  | .bucket => return { s with bucket := ← textOf v }
  | .keyPrefix => return { s with keyPrefix := ← textOf v }
  | .keyEncoder => return { s with keyEncoder := ← textOf v }
  | .enableMetrics => return { s with enableMetrics := ← flag v }
  | .logLevel => return { s with logLevel := ← textOf v }
  | .logJson => return { s with logJson := ← flag v }

/-- Whether a value may be the setting's, beyond its kind. -/
def check (s : Settings) (x : Setting) : Except SettingFault Unit :=
  if x = .bucket ∧ s.bucket.isBlank then .error .blankBucket else .ok ()

/-- Takes the settings that the sources have, and collects the faults by the names of the
settings. -/
def take (sources : Sources) : List Setting → Settings → Settings × List (Text × SettingFault)
  | [], s => (s, [])
  | x :: rest, s =>
    match sources.find? x with
    | none => take sources rest s
    | some v =>
      match do let s ← s.set x v; s.check x; pure s with
      | .ok s => take sources rest s
      | .error fault => (take sources rest s).map id ((x.argumentName, fault) :: ·)

/-- The value of each setting. -/
def value (s : Settings) : Setting → Json
  | .storeBackend => .str s.storeBackend
  | .redisUrl => .str s.redisUrl
  | .space => .str s.space
  | .bucket => .str s.bucket
  | .keyPrefix => .str s.keyPrefix
  | .keyEncoder => .str s.keyEncoder
  | .enableMetrics => .bool s.enableMetrics
  | .logLevel => .str s.logLevel
  | .logJson => .bool s.logJson

/-- The settings that the sources give, or all faults in the order of the settings. -/
def load (sources : Sources) : Except (List (Text × SettingFault)) Settings :=
  match take sources Setting.all {} with
  | (s, []) => .ok s
  | (_, faults) => .error faults

end Settings

end SlidingCache
