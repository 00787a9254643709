/-!
# Call-site caches

A call site remembers the class of its last receiver and the number of the dispatcher that was found
for it.  Both are packed into one 64-bit word, the class in the upper half; the word zero stands for
"nothing remembered", which no class number can be mistaken for because classes count from one.
Three counters tell how the cache fared.
-/
namespace LispMachine

structure CallSite where
  cell : UInt64 := 0
  hits : Nat := 0
  misses : Nat := 0
  updates : Nat := 0
  deriving DecidableEq, Repr, Inhabited

namespace CallSite

def pack (type dispatcher : UInt32) : UInt64 := (type.toUInt64 <<< 32) ||| dispatcher.toUInt64

def typeOf (cell : UInt64) : UInt32 := (cell >>> 32).toUInt32

def dispatcherOf (cell : UInt64) : UInt32 := cell.toUInt32

/-- The dispatcher remembered for a class, and the cache with the hit or miss counted. -/
def lookup (c : CallSite) (type : UInt32) : Option UInt32 × CallSite :=
  if c.cell != 0 && typeOf c.cell == type then
    (some (dispatcherOf c.cell), { c with hits := c.hits + 1 })
  else (none, { c with misses := c.misses + 1 })

def install (c : CallSite) (type dispatcher : UInt32) : CallSite :=
  { c with cell := pack type dispatcher, updates := c.updates + 1 }

/-- Forgets the remembered pair, so that the next lookup misses. -/
def invalidate (c : CallSite) : CallSite := { c with cell := 0 }

def entry (c : CallSite) : Option (UInt32 × UInt32) :=
  if c.cell == 0 then none else some (typeOf c.cell, dispatcherOf c.cell)

end CallSite

end LispMachine
