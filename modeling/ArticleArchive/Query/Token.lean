import ArticleArchive.Text.Basic

namespace ArticleArchive

/-- A comparison mark; the language writes the first five. -/
inductive Comparison where
  | gt
  | ge
  | lt
  | le
  | eq
  | other (mark : Text)
  deriving DecidableEq, Repr

namespace Comparison

def mark : Comparison → Text
  | gt => ['>']
  | ge => ['>', '=']
  | lt => ['<']
  | le => ['<', '=']
  | eq => ['=']
  | other m => m

def ofMark (m : Text) : Comparison :=
  if m = gt.mark then gt
  else if m = ge.mark then ge
  else if m = lt.mark then lt
  else if m = le.mark then le
  else if m = eq.mark then eq
  else other m

end Comparison

inductive Connective where
  | and
  | or
  deriving DecidableEq, Repr

namespace Connective

def keyword : Connective → Text
  | and => "AND".toList
  | or => "OR".toList

end Connective

def dateField : Text := "date".toList

def sortField : Text := "sort".toList

inductive Token where
  | word (text : Text)
  | phrase (text : Text)
  | field (name value : Text) (quoted : Bool)
  | range (name : Text) (op : Comparison) (value : Text)
  | dates (low high : Text)
  | sort (key direction : Text)
  | connective (c : Connective)
  | exclude (term : Token)
  | unknown
  deriving DecidableEq, Repr

namespace Token

def describe : Token → Text
  | word t => t
  | phrase t => t
  | field name value quoted =>
    if quoted then name ++ ':' :: '"' :: (value ++ ['"']) else name ++ ':' :: value
  | range name op value => name ++ ':' :: (op.mark ++ value)
  | dates low high => dateField ++ ':' :: (low ++ '.' :: '.' :: high)
  | sort key direction => sortField ++ ':' :: (key ++ ':' :: direction)
  | connective c => c.keyword
  | exclude _ => []
  | unknown => []

/-- Whether a token stands for a condition on articles, and so can be joined by `OR`. -/
def isClause : Token → Bool
  | word _ => true
  | phrase _ => true
  | field _ _ _ => true
  | range _ _ _ => true
  | dates _ _ => true
  | _ => false

end Token

end ArticleArchive
