/-!
# Cancellation tokens

Tokens form trees. A token is cancelled once it or a token above it has been cancelled, and stays
so.
-/

namespace Billing.Fetch

/-- A token: its place in its tree, from the token itself up to the root. -/
structure Token where
  path : List Nat
  deriving DecidableEq

namespace Token

/-- The root of a tree. -/
def root (n : Nat) : Token := ⟨[n]⟩

/-- A token below another. -/
def child (t : Token) (n : Nat) : Token := ⟨n :: t.path⟩

/-- A token is another or stands above it. -/
def covers (t u : Token) : Bool := t.path.isSuffixOf u.path

end Token

/-- The tokens that have been cancelled themselves. -/
structure Cancelled where
  tokens : List Token
  deriving DecidableEq

namespace Cancelled

/-- Nothing has been cancelled. -/
def none : Cancelled := ⟨[]⟩

/-- A token counts as cancelled. -/
def contains (c : Cancelled) (t : Token) : Bool := c.tokens.any fun u => u.covers t

/-- Cancels a token. -/
def add (c : Cancelled) (t : Token) : Cancelled := ⟨t :: c.tokens⟩

end Cancelled

end Billing.Fetch
