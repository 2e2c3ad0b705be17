import NodeShader.Graph.Pin

/-!
# Sorted lists of links

A graph keeps its links in strictly ascending order. Every query cuts the list at a key: before the
cut stand the links below the key, after it those that are not.
-/

namespace NodeShader.LinkList

/-- Every link is below all that follow it. -/
def Sorted (ls : List Link) : Prop := ls.Pairwise (· < ·)

/-- The links not below a key. -/
def atLeast (key : Link) (ls : List Link) : List Link := ls.dropWhile (· < key)

/-- The links below a key. -/
def below (key : Link) (ls : List Link) : List Link := ls.takeWhile (· < key)

/-- Is the link in the list? -/
def has (l : Link) (ls : List Link) : Bool := (atLeast l ls).head? = some l

/-- Puts a link at its place. -/
def insert (l : Link) (ls : List Link) : List Link := below l ls ++ l :: atLeast l ls

/-- Takes a link out. -/
def erase (l : Link) (ls : List Link) : List Link :=
  if has l ls then below l ls ++ (atLeast l ls).tail else ls

/-- The first link that leads to a pin: the first at or after the least word of the pin, if it
leads there. -/
def into? (p : Pin) (ls : List Link) : Option Link :=
  ((atLeast (Link.floorOf p) ls).head?).filter (·.target = p)

end NodeShader.LinkList
