/-!
The printable characters beyond ASCII that may not occur in names, by Unicode general category:
spacing and enclosing marks (Mc, Me), decimal digits (Nd), brackets and quotation marks (Ps, Pe, Pi,
Pf).
-/

namespace FlatScheme.Text

/-- Closed ranges of code points, increasing and apart from each other. -/
def printRanges : List (Nat × Nat) :=
  [(0xab, 0xab), (0xbb, 0xbb), (0x488, 0x489), (0x660, 0x669), (0x6f0, 0x6f9), (0x7c0, 0x7c9),
   (0x903, 0x903), (0x93b, 0x93b), (0x93e, 0x940), (0x949, 0x94c), (0x94e, 0x94f), (0x966, 0x96f),
   (0x982, 0x983), (0x9be, 0x9c0), (0x9c7, 0x9c8), (0x9cb, 0x9cc), (0x9d7, 0x9d7), (0x9e6, 0x9ef),
   (0xa03, 0xa03), (0xa3e, 0xa40), (0xa66, 0xa6f), (0xa83, 0xa83), (0xabe, 0xac0), (0xac9, 0xac9),
   (0xacb, 0xacc), (0xae6, 0xaef), (0xb02, 0xb03), (0xb3e, 0xb3e), (0xb40, 0xb40), (0xb47, 0xb48),
   (0xb4b, 0xb4c), (0xb57, 0xb57), (0xb66, 0xb6f), (0xbbe, 0xbbf), (0xbc1, 0xbc2), (0xbc6, 0xbc8),
   (0xbca, 0xbcc), (0xbd7, 0xbd7), (0xbe6, 0xbef), (0xc01, 0xc03), (0xc41, 0xc44), (0xc66, 0xc6f),
   (0xc82, 0xc83), (0xcbe, 0xcbe), (0xcc0, 0xcc4), (0xcc7, 0xcc8), (0xcca, 0xccb), (0xcd5, 0xcd6),
   (0xce6, 0xcef), (0xcf3, 0xcf3), (0xd02, 0xd03), (0xd3e, 0xd40), (0xd46, 0xd48), (0xd4a, 0xd4c),
   (0xd57, 0xd57), (0xd66, 0xd6f), (0xd82, 0xd83), (0xdcf, 0xdd1), (0xdd8, 0xddf), (0xde6, 0xdef),
   (0xdf2, 0xdf3), (0xe50, 0xe59), (0xed0, 0xed9), (0xf20, 0xf29), (0xf3a, 0xf3f), (0xf7f, 0xf7f),
   (0x102b, 0x102c), (0x1031, 0x1031), (0x1038, 0x1038), (0x103b, 0x103c), (0x1040, 0x1049),
   (0x1056, 0x1057), (0x1062, 0x1064), (0x1067, 0x106d), (0x1083, 0x1084), (0x1087, 0x108c),
   (0x108f, 0x109c), (0x169b, 0x169c), (0x1715, 0x1715), (0x1734, 0x1734), (0x17b6, 0x17b6),
   (0x17be, 0x17c5), (0x17c7, 0x17c8), (0x17e0, 0x17e9), (0x1810, 0x1819), (0x1923, 0x1926),
   (0x1929, 0x192b), (0x1930, 0x1931), (0x1933, 0x1938), (0x1946, 0x194f), (0x19d0, 0x19d9),
   (0x1a19, 0x1a1a), (0x1a55, 0x1a55), (0x1a57, 0x1a57), (0x1a61, 0x1a61), (0x1a63, 0x1a64),
   (0x1a6d, 0x1a72), (0x1a80, 0x1a89), (0x1a90, 0x1a99), (0x1abe, 0x1abe), (0x1b04, 0x1b04),
   (0x1b35, 0x1b35), (0x1b3b, 0x1b3b), (0x1b3d, 0x1b41), (0x1b43, 0x1b44), (0x1b50, 0x1b59),
   (0x1b82, 0x1b82), (0x1ba1, 0x1ba1), (0x1ba6, 0x1ba7), (0x1baa, 0x1baa), (0x1bb0, 0x1bb9),
   (0x1be7, 0x1be7), (0x1bea, 0x1bec), (0x1bee, 0x1bee), (0x1bf2, 0x1bf3), (0x1c24, 0x1c2b),
   (0x1c34, 0x1c35), (0x1c40, 0x1c49), (0x1c50, 0x1c59), (0x1ce1, 0x1ce1), (0x1cf7, 0x1cf7),
   (0x2018, 0x201f), (0x2039, 0x203a), (0x2045, 0x2046), (0x207d, 0x207e), (0x208d, 0x208e),
   (0x20dd, 0x20e0), (0x20e2, 0x20e4), (0x2308, 0x230b), (0x2329, 0x232a), (0x2768, 0x2775),
   (0x27c5, 0x27c6), (0x27e6, 0x27ef), (0x2983, 0x2998), (0x29d8, 0x29db), (0x29fc, 0x29fd),
   (0x2e02, 0x2e05), (0x2e09, 0x2e0a), (0x2e0c, 0x2e0d), (0x2e1c, 0x2e1d), (0x2e20, 0x2e29),
   (0x2e42, 0x2e42), (0x2e55, 0x2e5c), (0x3008, 0x3011), (0x3014, 0x301b), (0x301d, 0x301f),
   (0x302e, 0x302f), (0xa620, 0xa629), (0xa670, 0xa672), (0xa823, 0xa824), (0xa827, 0xa827),
   (0xa880, 0xa881), (0xa8b4, 0xa8c3), (0xa8d0, 0xa8d9), (0xa900, 0xa909), (0xa952, 0xa953),
   (0xa983, 0xa983), (0xa9b4, 0xa9b5), (0xa9ba, 0xa9bb), (0xa9be, 0xa9c0), (0xa9d0, 0xa9d9),
   (0xa9f0, 0xa9f9), (0xaa2f, 0xaa30), (0xaa33, 0xaa34), (0xaa4d, 0xaa4d), (0xaa50, 0xaa59),
   (0xaa7b, 0xaa7b), (0xaa7d, 0xaa7d), (0xaaeb, 0xaaeb), (0xaaee, 0xaaef), (0xaaf5, 0xaaf5),
   (0xabe3, 0xabe4), (0xabe6, 0xabe7), (0xabe9, 0xabea), (0xabec, 0xabec), (0xabf0, 0xabf9),
   (0xfd3e, 0xfd3f), (0xfe17, 0xfe18), (0xfe35, 0xfe44), (0xfe47, 0xfe48), (0xfe59, 0xfe5e),
   (0xff08, 0xff09), (0xff10, 0xff19), (0xff3b, 0xff3b), (0xff3d, 0xff3d), (0xff5b, 0xff5b),
   (0xff5d, 0xff5d), (0xff5f, 0xff60), (0xff62, 0xff63), (0x104a0, 0x104a9), (0x10d30, 0x10d39),
   (0x11000, 0x11000), (0x11002, 0x11002), (0x11066, 0x1106f), (0x11082, 0x11082),
   (0x110b0, 0x110b2), (0x110b7, 0x110b8), (0x110f0, 0x110f9), (0x1112c, 0x1112c),
   (0x11136, 0x1113f), (0x11145, 0x11146), (0x11182, 0x11182), (0x111b3, 0x111b5),
   (0x111bf, 0x111c0), (0x111ce, 0x111ce), (0x111d0, 0x111d9), (0x1122c, 0x1122e),
   (0x11232, 0x11233), (0x11235, 0x11235), (0x112e0, 0x112e2), (0x112f0, 0x112f9),
   (0x11302, 0x11303), (0x1133e, 0x1133f), (0x11341, 0x11344), (0x11347, 0x11348),
   (0x1134b, 0x1134d), (0x11357, 0x11357), (0x11362, 0x11363), (0x11435, 0x11437),
   (0x11440, 0x11441), (0x11445, 0x11445), (0x11450, 0x11459), (0x114b0, 0x114b2),
   (0x114b9, 0x114b9), (0x114bb, 0x114be), (0x114c1, 0x114c1), (0x114d0, 0x114d9),
   (0x115af, 0x115b1), (0x115b8, 0x115bb), (0x115be, 0x115be), (0x11630, 0x11632),
   (0x1163b, 0x1163c), (0x1163e, 0x1163e), (0x11650, 0x11659), (0x116ac, 0x116ac),
   (0x116ae, 0x116af), (0x116b6, 0x116b6), (0x116c0, 0x116c9), (0x11720, 0x11721),
   (0x11726, 0x11726), (0x11730, 0x11739), (0x1182c, 0x1182e), (0x11838, 0x11838),
   (0x118e0, 0x118e9), (0x11930, 0x11935), (0x11937, 0x11938), (0x1193d, 0x1193d),
   (0x11940, 0x11940), (0x11942, 0x11942), (0x11950, 0x11959), (0x119d1, 0x119d3),
   (0x119dc, 0x119df), (0x119e4, 0x119e4), (0x11a39, 0x11a39), (0x11a57, 0x11a58),
   (0x11a97, 0x11a97), (0x11c2f, 0x11c2f), (0x11c3e, 0x11c3e), (0x11c50, 0x11c59),
   (0x11ca9, 0x11ca9), (0x11cb1, 0x11cb1), (0x11cb4, 0x11cb4), (0x11d50, 0x11d59),
   (0x11d8a, 0x11d8e), (0x11d93, 0x11d94), (0x11d96, 0x11d96), (0x11da0, 0x11da9),
   (0x11ef5, 0x11ef6), (0x11f03, 0x11f03), (0x11f34, 0x11f35), (0x11f3e, 0x11f3f),
   (0x11f41, 0x11f41), (0x11f50, 0x11f59), (0x16a60, 0x16a69), (0x16ac0, 0x16ac9),
   (0x16b50, 0x16b59), (0x16f51, 0x16f87), (0x16ff0, 0x16ff1), (0x1d165, 0x1d166),
   (0x1d16d, 0x1d172), (0x1d7ce, 0x1d7ff), (0x1e140, 0x1e149), (0x1e2f0, 0x1e2f9),
   (0x1e4f0, 0x1e4f9), (0x1e950, 0x1e959), (0x1fbf0, 0x1fbf9)]

end FlatScheme.Text
