/-! # Tables of tags -/

namespace Stencil

def voidTags : List String :=
  ["area", "base", "br", "col", "embed", "hr", "img", "input", "keygen", "link", "menuitem", "meta",
    "param", "source", "track", "wbr"]

/-- Elements that are never put on a line of their own. -/
def inlineTags : List String :=
  ["a", "abbr", "acronym", "b", "br", "code", "em", "font", "i", "img", "ins", "kbd", "map", "samp",
    "small", "span", "strong", "sub", "sup"]

def isVoidTag (name : String) : Bool :=
  voidTags.contains name

def isInlineTag (name : String) : Bool :=
  inlineTags.contains name

end Stencil
