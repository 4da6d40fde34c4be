/-! # Support code

The object that a client function calls for everything that is not plain control flow. Numbers that
are not finite stand for null there, so it treats them alike wherever a value is written or
tested. -/

namespace Stencil.Client

def support : String :=
  "\x7b" ++
  "nil:function(v)\x7breturn v==null||typeof v===\"number\"&&!isFinite(v)\x7d," ++
  "ok:function(v)\x7breturn !this.nil(v)&&!!v\x7d," ++
  "str:function(v)\x7breturn this.nil(v)?\"\":String(v)\x7d," ++
  "encode:function(v)\x7breturn this.str(v).replace(/[&<>\"]/g,function(c)\x7b" ++
  "return \x7b\"&\":\"&amp;\",\"<\":\"&lt;\",\">\":\"&gt;\",'\"':\"&quot;\"\x7d[c]\x7d)\x7d," ++
  "cls:function(v)\x7bvar out=[],self=this;(function walk(v)\x7b" ++
  "if(Array.isArray(v))\x7bv.forEach(walk)\x7d" ++
  "else if(v&&typeof v===\"object\")\x7bObject.keys(v).forEach(function(k)" ++
  "\x7bif(self.ok(v[k]))out.push(k)\x7d)\x7d" ++
  "else if(self.ok(v))\x7bout.push(self.str(v))\x7d\x7d)(v);return out.join(\" \")\x7d," ++
  "attr:function(n,v,e)\x7bif(v===true)return \" \"+n;if(v===false||this.nil(v))return \"\";" ++
  "return \" \"+n+\"=\\\"\"+(e?this.encode(v):this.str(v))+\"\\\"\"\x7d," ++
  "each:function(l,f)\x7bif(this.nil(l))return;" ++
  "if(Array.isArray(l))\x7bfor(var i=0;i<l.length;i++)f(l[i],i)\x7d" ++
  "else if(typeof l===\"object\")\x7bObject.keys(l).forEach(function(k)\x7bf(l[k],k)\x7d)\x7d" ++
  "else\x7bf(l,0)\x7d\x7d," ++
  "block:function(b,n,d)\x7bvar c=b[n];if(!c)\x7bd();return\x7d" ++
  "c[0]&&c[0]();c[1]?c[1]():d();c[2]&&c[2]()\x7d" ++
  "\x7d"

end Stencil.Client
