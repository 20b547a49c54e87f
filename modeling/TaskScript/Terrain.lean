/-!
# Terrain and items

What fills a cube, and what lies on one or is carried by an actor.

## Contents
- `Terrain`, with `Terrain.isSolid`: what cannot be walked through.
- `Item`: logs and boulders.
-/

namespace TaskScript

/-- What fills a cube. -/
inductive Terrain where
  | air
  | rock
  | tree
  | workshop
deriving DecidableEq, Repr, Inhabited

namespace Terrain

/-- The name of a terrain in documents. -/
def label : Terrain → String
  | .air => "air"
  | .rock => "rock"
  | .tree => "tree"
  | .workshop => "workshop"

/-- Rock and trees cannot be walked through. -/
def isSolid : Terrain → Bool
  | .rock | .tree => true
  | .air | .workshop => false

end Terrain

/-- A loose item. -/
inductive Item where
  | log
  | boulder
deriving DecidableEq, Repr

/-- The name of an item, in texts as in documents. -/
def Item.label : Item → String
  | .log => "log"
  | .boulder => "boulder"

end TaskScript
