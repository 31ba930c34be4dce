import ArticleArchive.Log
import ArticleArchive.Text.Numeral

namespace ArticleArchive

structure Settings where
  /-- The file with the articles; none is the sample corpus. -/
  dataPath : Option Text := none
  defaultLimit : Int := 10
  maxLimit : Int := 100
  includeFuture : Bool := false
  logLevel : LogLevel := .info
  deriving DecidableEq

namespace Settings

def dataPathVariable : Text := "SEARCH_DATA_PATH".toList
def defaultLimitVariable : Text := "SEARCH_DEFAULT_LIMIT".toList
def maxLimitVariable : Text := "SEARCH_MAX_LIMIT".toList
def includeFutureVariable : Text := "SEARCH_INCLUDE_FUTURE".toList
def logLevelVariable : Text := "SEARCH_LOG_LEVEL".toList

def segments : Text → List Text
  | [] => [[]]
  | c :: cs => if c = '/' then [] :: segments cs else Text.consWord c (segments cs)

/-- The slashes at the beginning of a path: two of them are kept, any other number counts as one. -/
def pathRoot (t : Text) : Text :=
  let slashes := (t.takeWhile (· = '/')).length
  List.replicate (if slashes = 2 then 2 else min slashes 1) '/'

/-- A path without empty parts and without parts that are a single point. -/
def normalPath (t : Text) : Text :=
  let parts := (segments t).filter fun p => !p.isEmpty && p != ['.']
  let path := pathRoot t ++ ['/'].intercalate parts
  if path.isEmpty then ['.'] else path

def integerOr (default : Int) (given : Option Text) : Int :=
  (given.bind Text.integer?).getD default

def trueWords : List Text :=
  ["1".toList, "true".toList, "yes".toList, "on".toList]

def isTrueWord (t : Text) : Bool :=
  trueWords.contains ((Text.strip t).map Char.toLower)

/-- The capital of a letter of the alphabet, also of a dotless i. -/
def capital (c : Char) : Char :=
  if c = '\u0131' then 'I' else c.toUpper

def levelOr (default : LogLevel) (given : Option Text) : LogLevel :=
  (given.bind fun t => LogLevel.ofText? ((Text.strip t).map capital)).getD default

def validMaxLimit (n : Int) : Int :=
  if n < 1 then 100 else n

/-- A default that does not fit the greatest limit gives way to one that does. -/
def validDefaultLimit (maxLimit n : Int) : Int :=
  if 1 ≤ n ∧ n ≤ maxLimit then n else min 10 maxLimit

/-- A variable that is not set or makes no sense leaves the default in force. -/
def ofEnvironment (env : List (Text × Text)) : Settings :=
  let maxLimit := validMaxLimit (integerOr 100 (env.lookup maxLimitVariable))
  let defaultLimit := integerOr 10 (env.lookup defaultLimitVariable)
  { dataPath := (env.lookup dataPathVariable).map normalPath
    defaultLimit := validDefaultLimit maxLimit defaultLimit
    maxLimit
    includeFuture := (env.lookup includeFutureVariable).any isTrueWord
    logLevel := levelOr .info (env.lookup logLevelVariable) }

/-- The limit in force for a requested one. -/
def appliedLimit (s : Settings) (requested : Option Int) : Int :=
  match requested with
  | none => s.defaultLimit
  | some n => if n < 1 ∨ s.maxLimit < n then s.defaultLimit else n

end Settings

end ArticleArchive
