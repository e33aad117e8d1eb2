/-!
Symbols: names that are compared as text. A name that starts with a colon and has more than the
colon is a keyword; keywords and the two truth symbols stand for themselves.
-/

namespace SlotLisp

/-- A symbol is its name, so two symbols of one name are one symbol. -/
structure Symbol where
  name : String
  deriving DecidableEq, Inhabited, Repr

namespace Symbol

/-- A lone colon is an ordinary symbol. -/
def isKeyword (s : Symbol) : Bool :=
  match s.name.toList with
  | ':' :: _ :: _ => true
  | _ => false

/-- The keyword that selects what `s` names: `s` itself if it is one already. -/
def keyword (s : Symbol) : Symbol :=
  if s.isKeyword then s else ⟨":" ++ s.name⟩

def yes : Symbol := ⟨"#t"⟩

/-- The false symbol, one of the two false values. -/
def no : Symbol := ⟨"#f"⟩

def ofBool (b : Bool) : Symbol := if b then yes else no

def selfEvaluating (s : Symbol) : Bool :=
  s.isKeyword || s == yes || s == no

/- Heads of the forms that the reader and the expanders write. -/

def quote : Symbol := ⟨"quote"⟩
def quasiquote : Symbol := ⟨"quasiquote"⟩
def unquote : Symbol := ⟨"unquote"⟩
def unquoteSplicing : Symbol := ⟨"unquote-splicing"⟩
def function : Symbol := ⟨"function"⟩
def lambda : Symbol := ⟨"lambda"⟩
def progn : Symbol := ⟨"progn"⟩
def define : Symbol := ⟨"define"⟩
def defclass : Symbol := ⟨"defclass"⟩

/-- The symbol that, directly inside a parenthesis, announces the tail of a dotted list. -/
def dot : Symbol := ⟨"."⟩

@[simp] theorem keyword_of_isKeyword {s : Symbol} (h : s.isKeyword = true) : s.keyword = s := by
  simp [keyword, h]

end Symbol
end SlotLisp
