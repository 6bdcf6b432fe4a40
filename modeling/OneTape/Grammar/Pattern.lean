import OneTape.Grammar.Cursor

/-!
Parsing expressions: a choice takes its first alternative that matches, a repetition or an option
takes what it can, and neither is revised when what follows does not match.
-/

namespace OneTape.Grammar

inductive Node (κ : Type) where
  | mk (kind : κ) (start stop : Position) (text : List Char) (children : List (Node κ))

namespace Node

variable {κ : Type}

def kind : Node κ → κ
  | mk k _ _ _ _ => k

def start : Node κ → Position
  | mk _ p _ _ _ => p

def stop : Node κ → Position
  | mk _ _ p _ _ => p

def text : Node κ → List Char
  | mk _ _ _ t _ => t

def children : Node κ → List (Node κ)
  | mk _ _ _ _ cs => cs

def between (kind : κ) (first last : Cursor) (children : List (Node κ)) : Node κ :=
  mk kind first.position last.position
    (first.rest.take (last.position.index - first.position.index)) children

end Node

structure Match (κ : Type) where
  cursor : Cursor
  nodes : List (Node κ)

inductive Pattern (κ : Type) where
  | satisfy (test : Char → Bool)
  | literal (word : List Char)
  | atEnd
  | seq (first second : Pattern κ)
  | choice (first second : Pattern κ)
  | optional (body : Pattern κ)
  | many (body : Pattern κ)
  | ahead (body : Pattern κ)
  | notAhead (body : Pattern κ)
  | node (kind : κ) (body : Pattern κ)
  | leaf (kind : κ) (body : Pattern κ)

namespace Pattern

variable {κ : Type}

def repeatMatch (step : Cursor → Option (Match κ)) :
    List Char → Cursor → List (Node κ) → Match κ
  | [], k, nodes => ⟨k, nodes.reverse⟩
  | _ :: bound, k, nodes =>
    match step k with
    | none => ⟨k, nodes.reverse⟩
    | some m => repeatMatch step bound m.cursor (m.nodes.reverse ++ nodes)

/-- The match of a pattern at a place of a text. A repetition is bounded by the characters that
follow, which is no bound for a pattern that takes at least one. -/
def match? : Pattern κ → Cursor → Option (Match κ)
  | satisfy test, k => (k.satisfy? test).map (⟨·, []⟩)
  | literal word, k => (k.literal? word).map (⟨·, []⟩)
  | atEnd, k => if k.rest.isEmpty then some ⟨k, []⟩ else none
  | seq p q, k =>
    match p.match? k with
    | none => none
    | some m =>
      match q.match? m.cursor with
      | none => none
      | some n => some ⟨n.cursor, m.nodes ++ n.nodes⟩
  | choice p q, k =>
    match p.match? k with
    | none => q.match? k
    | some m => some m
  | optional p, k =>
    match p.match? k with
    | none => some ⟨k, []⟩
    | some m => some m
  | many p, k => some (repeatMatch p.match? k.rest k [])
  | ahead p, k => if (p.match? k).isSome then some ⟨k, []⟩ else none
  | notAhead p, k => if (p.match? k).isSome then none else some ⟨k, []⟩
  | node kind p, k => (p.match? k).map fun m => ⟨m.cursor, [.between kind k m.cursor m.nodes]⟩
  | leaf kind p, k => (p.match? k).map fun m => ⟨m.cursor, [.between kind k m.cursor []]⟩

def some1 (p : Pattern κ) : Pattern κ := seq p (many p)

def all : Pattern κ → List (Pattern κ) → Pattern κ
  | p, [] => p
  | p, q :: rest => seq p (all q rest)

def firstOf : Pattern κ → List (Pattern κ) → Pattern κ
  | p, [] => p
  | p, q :: rest => choice p (firstOf q rest)

end Pattern

end OneTape.Grammar
