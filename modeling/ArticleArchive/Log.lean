import ArticleArchive.Text.Basic

namespace ArticleArchive

inductive LogLevel where
  | debug
  | info
  | warning
  | error
  | critical
  deriving DecidableEq, Repr

namespace LogLevel

def all : List LogLevel := [debug, info, warning, error, critical]

def text : LogLevel → Text
  | debug => "DEBUG".toList
  | info => "INFO".toList
  | warning => "WARNING".toList
  | error => "ERROR".toList
  | critical => "CRITICAL".toList

def ofText? (t : Text) : Option LogLevel :=
  all.find? fun l => l.text = t

end LogLevel

structure LogRecord where
  level : LogLevel
  message : Text
  deriving DecidableEq, Repr

namespace LogRecord

def warning (message : Text) : LogRecord :=
  ⟨.warning, message⟩

def info (message : Text) : LogRecord :=
  ⟨.info, message⟩

end LogRecord

end ArticleArchive
