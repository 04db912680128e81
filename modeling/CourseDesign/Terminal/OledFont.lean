import CourseDesign.Terminal.OledText

/-!
# The font of the terminal

`ArialMT_Plain_10` of `OLEDDisplayFonts.c`: the size and the characters, the table of the glyphs,
and their bytes.

* `entryOk_of_entriesOk` — one walk along the table of a font checks all its entries.
* `arialMTPlain10` — the tables of this font are complete.
-/

namespace CourseDesign.Terminal

/-- The bytes of `ArialMT_Plain_10`. -/
def arialMTPlain10Bytes : List ℕ :=
  [10, 13, 32, 224, 255, 255, 0, 3, 0, 0, 4, 3, 0, 4, 5, 4, 0, 9, 9, 6, 0, 18, 10, 6, 0, 28, 16, 9,
   0, 44, 14, 7, 0, 58, 1, 2, 0, 59, 6, 3, 0, 65, 6, 3, 0, 71, 5, 4, 0, 76, 9, 6, 0, 85, 4, 3, 0,
   89, 3, 3, 0, 92, 4, 3, 0, 96, 5, 3, 0, 101, 10, 6, 0, 111, 8, 6, 0, 119, 10, 6, 0, 129, 10, 6,
   0, 139, 11, 6, 0, 150, 10, 6, 0, 160, 10, 6, 0, 170, 9, 6, 0, 179, 10, 6, 0, 189, 10, 6, 0, 199,
   4, 3, 0, 203, 4, 3, 0, 207, 10, 6, 0, 217, 9, 6, 0, 226, 9, 6, 0, 235, 11, 6, 0, 246, 20, 10, 1,
   10, 14, 7, 1, 24, 12, 7, 1, 36, 12, 7, 1, 48, 11, 7, 1, 59, 12, 7, 1, 71, 9, 6, 1, 80, 13, 8, 1,
   93, 12, 7, 1, 105, 4, 3, 1, 109, 8, 5, 1, 117, 14, 7, 1, 131, 12, 6, 1, 143, 16, 8, 1, 159, 12,
   7, 1, 171, 14, 8, 1, 185, 11, 7, 1, 196, 14, 8, 1, 210, 12, 7, 1, 222, 12, 7, 1, 234, 11, 6, 1,
   245, 12, 7, 2, 1, 13, 7, 2, 14, 17, 9, 2, 31, 14, 7, 2, 45, 13, 7, 2, 58, 12, 6, 2, 70, 6, 3, 2,
   76, 6, 3, 2, 82, 4, 3, 2, 86, 9, 5, 2, 95, 12, 6, 2, 107, 3, 3, 2, 110, 10, 6, 2, 120, 10, 6, 2,
   130, 10, 5, 2, 140, 10, 6, 2, 150, 10, 6, 2, 160, 5, 3, 2, 165, 10, 6, 2, 175, 10, 6, 2, 185, 4,
   2, 2, 189, 4, 2, 2, 193, 8, 5, 2, 201, 4, 2, 2, 205, 16, 8, 2, 221, 10, 6, 2, 231, 10, 6, 2,
   241, 10, 6, 2, 251, 10, 6, 3, 5, 5, 3, 3, 10, 8, 5, 3, 18, 6, 3, 3, 24, 10, 6, 3, 34, 9, 5, 3,
   43, 14, 7, 3, 57, 10, 5, 3, 67, 9, 5, 3, 76, 10, 5, 3, 86, 6, 3, 3, 92, 4, 3, 3, 96, 5, 3, 3,
   101, 9, 6, 255, 255, 0, 0, 255, 255, 0, 10, 255, 255, 0, 10, 255, 255, 0, 10, 255, 255, 0, 10,
   255, 255, 0, 10, 255, 255, 0, 10, 255, 255, 0, 10, 255, 255, 0, 10, 255, 255, 0, 10, 255, 255,
   0, 10, 255, 255, 0, 10, 255, 255, 0, 10, 255, 255, 0, 10, 255, 255, 0, 10, 255, 255, 0, 10, 255,
   255, 0, 10, 255, 255, 0, 10, 255, 255, 0, 10, 255, 255, 0, 10, 255, 255, 0, 10, 255, 255, 0, 10,
   255, 255, 0, 10, 255, 255, 0, 10, 255, 255, 0, 10, 255, 255, 0, 10, 255, 255, 0, 10, 255, 255,
   0, 10, 255, 255, 0, 10, 255, 255, 0, 10, 255, 255, 0, 10, 255, 255, 0, 10, 255, 255, 0, 10, 255,
   255, 0, 3, 3, 110, 4, 3, 3, 114, 10, 6, 3, 124, 12, 6, 3, 136, 10, 6, 3, 146, 10, 6, 3, 156, 4,
   3, 3, 160, 10, 6, 3, 170, 5, 3, 3, 175, 13, 7, 3, 188, 7, 4, 3, 195, 10, 6, 3, 205, 9, 6, 3,
   214, 3, 3, 3, 217, 13, 7, 3, 230, 11, 6, 3, 241, 7, 4, 3, 248, 10, 5, 4, 2, 5, 3, 4, 7, 5, 3, 4,
   12, 5, 3, 4, 17, 10, 6, 4, 27, 9, 5, 4, 36, 3, 3, 4, 39, 6, 3, 4, 45, 5, 3, 4, 50, 7, 4, 4, 57,
   10, 6, 4, 67, 16, 8, 4, 83, 16, 8, 4, 99, 16, 8, 4, 115, 10, 6, 4, 125, 14, 7, 4, 139, 14, 7, 4,
   153, 14, 7, 4, 167, 14, 7, 4, 181, 14, 7, 4, 195, 14, 7, 4, 209, 18, 10, 4, 227, 12, 7, 4, 239,
   12, 7, 4, 251, 12, 7, 5, 7, 12, 7, 5, 19, 12, 7, 5, 31, 5, 3, 5, 36, 4, 3, 5, 40, 4, 3, 5, 44,
   5, 3, 5, 49, 11, 7, 5, 60, 12, 7, 5, 72, 14, 8, 5, 86, 14, 8, 5, 100, 14, 8, 5, 114, 14, 8, 5,
   128, 14, 8, 5, 142, 10, 6, 5, 152, 13, 8, 5, 165, 12, 7, 5, 177, 12, 7, 5, 189, 12, 7, 5, 201,
   12, 7, 5, 213, 13, 7, 5, 226, 11, 7, 5, 237, 12, 6, 5, 249, 10, 6, 6, 3, 10, 6, 6, 13, 10, 6, 6,
   23, 10, 6, 6, 33, 10, 6, 6, 43, 10, 6, 6, 53, 16, 9, 6, 69, 10, 5, 6, 79, 10, 6, 6, 89, 10, 6,
   6, 99, 10, 6, 6, 109, 10, 6, 6, 119, 5, 3, 6, 124, 4, 3, 6, 128, 5, 3, 6, 133, 5, 3, 6, 138, 10,
   6, 6, 148, 10, 6, 6, 158, 10, 6, 6, 168, 10, 6, 6, 178, 10, 6, 6, 188, 10, 6, 6, 198, 10, 6, 6,
   208, 9, 5, 6, 217, 10, 6, 6, 227, 10, 6, 6, 237, 10, 6, 6, 247, 10, 6, 7, 1, 10, 6, 7, 11, 9, 5,
   7, 20, 10, 6, 7, 30, 9, 5, 0, 0, 248, 2, 56, 0, 0, 0, 56, 160, 3, 224, 0, 184, 3, 224, 0, 184,
   48, 1, 40, 2, 248, 7, 72, 2, 144, 1, 0, 0, 48, 0, 72, 0, 48, 3, 192, 0, 176, 1, 72, 2, 128, 1,
   128, 1, 80, 2, 104, 2, 168, 2, 24, 1, 128, 3, 128, 2, 56, 224, 3, 16, 4, 8, 8, 8, 8, 16, 4, 224,
   3, 40, 0, 24, 0, 40, 64, 0, 64, 0, 240, 1, 64, 0, 64, 0, 0, 0, 6, 128, 0, 128, 0, 0, 0, 2, 0, 3,
   224, 0, 24, 240, 1, 8, 2, 8, 2, 8, 2, 240, 1, 0, 0, 32, 0, 16, 0, 248, 3, 16, 2, 8, 3, 136, 2,
   72, 2, 48, 2, 16, 1, 8, 2, 72, 2, 72, 2, 176, 1, 192, 0, 160, 0, 144, 0, 136, 0, 248, 3, 128,
   96, 1, 56, 2, 40, 2, 40, 2, 200, 1, 240, 1, 40, 2, 40, 2, 40, 2, 208, 1, 8, 0, 8, 3, 200, 0, 56,
   0, 8, 176, 1, 72, 2, 72, 2, 72, 2, 176, 1, 112, 1, 136, 2, 136, 2, 136, 2, 240, 1, 0, 0, 32, 2,
   0, 0, 32, 6, 0, 0, 64, 0, 160, 0, 160, 0, 16, 1, 160, 0, 160, 0, 160, 0, 160, 0, 160, 0, 0, 16,
   1, 160, 0, 160, 0, 64, 16, 0, 8, 0, 8, 0, 200, 2, 72, 0, 48, 0, 0, 192, 3, 48, 4, 208, 9, 40,
   10, 40, 10, 200, 11, 104, 10, 16, 5, 224, 4, 0, 2, 192, 1, 176, 0, 136, 0, 176, 0, 192, 1, 0, 2,
   0, 0, 248, 3, 72, 2, 72, 2, 72, 2, 240, 1, 0, 0, 240, 1, 8, 2, 8, 2, 8, 2, 16, 1, 0, 0, 248, 3,
   8, 2, 8, 2, 16, 1, 224, 0, 0, 248, 3, 72, 2, 72, 2, 72, 2, 72, 2, 0, 0, 248, 3, 72, 0, 72, 0, 8,
   0, 0, 224, 0, 16, 1, 8, 2, 72, 2, 80, 1, 192, 0, 0, 248, 3, 64, 0, 64, 0, 64, 0, 248, 3, 0, 0,
   248, 3, 0, 3, 0, 2, 0, 2, 248, 1, 0, 0, 248, 3, 128, 0, 96, 0, 144, 0, 8, 1, 0, 2, 0, 0, 248, 3,
   0, 2, 0, 2, 0, 2, 0, 2, 0, 0, 248, 3, 48, 0, 192, 1, 0, 2, 192, 1, 48, 0, 248, 3, 0, 0, 248, 3,
   48, 0, 64, 0, 128, 1, 248, 3, 0, 0, 240, 1, 8, 2, 8, 2, 8, 2, 8, 2, 240, 1, 0, 0, 248, 3, 72, 0,
   72, 0, 72, 0, 48, 0, 0, 240, 1, 8, 2, 8, 2, 8, 3, 8, 3, 240, 2, 0, 0, 248, 3, 72, 0, 72, 0, 200,
   0, 48, 3, 0, 0, 48, 1, 72, 2, 72, 2, 72, 2, 144, 1, 0, 0, 8, 0, 8, 0, 248, 3, 8, 0, 8, 0, 0,
   248, 1, 0, 2, 0, 2, 0, 2, 248, 1, 8, 0, 112, 0, 128, 1, 0, 2, 128, 1, 112, 0, 8, 24, 0, 224, 1,
   0, 2, 240, 1, 8, 0, 240, 1, 0, 2, 224, 1, 24, 0, 2, 8, 1, 144, 0, 96, 0, 144, 0, 8, 1, 0, 2, 8,
   0, 16, 0, 32, 0, 192, 3, 32, 0, 16, 0, 8, 8, 3, 136, 2, 200, 2, 104, 2, 56, 2, 24, 2, 0, 0, 248,
   15, 8, 8, 24, 0, 224, 0, 0, 3, 8, 8, 248, 15, 64, 0, 48, 0, 8, 0, 48, 0, 64, 0, 8, 0, 8, 0, 8,
   0, 8, 0, 8, 0, 8, 8, 0, 16, 0, 0, 0, 3, 160, 2, 160, 2, 224, 3, 0, 0, 248, 3, 32, 2, 32, 2, 192,
   1, 0, 0, 192, 1, 32, 2, 32, 2, 64, 1, 0, 0, 192, 1, 32, 2, 32, 2, 248, 3, 0, 0, 192, 1, 160, 2,
   160, 2, 192, 2, 32, 0, 240, 3, 40, 0, 0, 192, 5, 32, 10, 32, 10, 224, 7, 0, 0, 248, 3, 32, 0,
   32, 0, 192, 3, 0, 0, 232, 3, 0, 8, 232, 7, 248, 3, 128, 0, 192, 1, 32, 2, 0, 0, 248, 3, 0, 0,
   224, 3, 32, 0, 32, 0, 224, 3, 32, 0, 32, 0, 192, 3, 0, 0, 224, 3, 32, 0, 32, 0, 192, 3, 0, 0,
   192, 1, 32, 2, 32, 2, 192, 1, 0, 0, 224, 15, 32, 2, 32, 2, 192, 1, 0, 0, 192, 1, 32, 2, 32, 2,
   224, 15, 0, 0, 224, 3, 32, 64, 2, 160, 2, 160, 2, 32, 1, 32, 0, 248, 3, 32, 2, 0, 0, 224, 1, 0,
   2, 0, 2, 224, 3, 32, 0, 192, 1, 0, 2, 192, 1, 32, 224, 1, 0, 2, 192, 1, 32, 0, 192, 1, 0, 2,
   224, 1, 32, 2, 64, 1, 128, 0, 64, 1, 32, 2, 32, 0, 192, 9, 0, 6, 192, 1, 32, 32, 2, 32, 3, 160,
   2, 96, 2, 32, 2, 128, 0, 120, 15, 8, 8, 0, 0, 248, 15, 8, 8, 120, 15, 128, 192, 0, 64, 0, 192,
   0, 128, 0, 192, 0, 0, 160, 15, 0, 0, 192, 1, 160, 15, 120, 2, 64, 1, 64, 2, 112, 3, 200, 2, 72,
   2, 8, 2, 16, 2, 0, 0, 224, 1, 32, 1, 32, 1, 224, 1, 72, 1, 112, 1, 192, 3, 112, 1, 72, 1, 0, 0,
   56, 15, 208, 4, 40, 9, 72, 9, 72, 10, 144, 5, 8, 0, 0, 0, 8, 224, 0, 16, 1, 72, 2, 168, 2, 168,
   2, 16, 1, 224, 104, 0, 104, 0, 104, 0, 120, 0, 0, 128, 1, 64, 2, 128, 1, 64, 2, 32, 0, 32, 0,
   32, 0, 32, 0, 224, 128, 0, 128, 224, 0, 16, 1, 232, 2, 104, 2, 200, 2, 16, 1, 224, 2, 0, 2, 0,
   2, 0, 2, 0, 2, 0, 2, 0, 0, 56, 0, 40, 0, 56, 64, 2, 64, 2, 240, 3, 64, 2, 64, 2, 72, 0, 104, 0,
   88, 72, 0, 88, 0, 104, 0, 0, 16, 0, 8, 0, 0, 224, 15, 0, 2, 0, 2, 224, 3, 112, 0, 248, 15, 8, 0,
   248, 15, 8, 0, 0, 64, 0, 0, 0, 20, 0, 24, 0, 0, 16, 0, 120, 48, 0, 72, 0, 72, 0, 48, 0, 0, 64,
   2, 128, 1, 64, 2, 128, 1, 0, 0, 16, 2, 120, 1, 192, 0, 32, 1, 144, 1, 200, 3, 0, 1, 0, 0, 16, 2,
   120, 1, 128, 0, 96, 0, 80, 2, 72, 3, 192, 2, 72, 0, 88, 0, 104, 3, 128, 0, 96, 1, 144, 1, 200,
   3, 0, 1, 0, 0, 0, 6, 0, 9, 160, 9, 0, 4, 0, 2, 192, 1, 176, 0, 137, 0, 178, 0, 192, 1, 0, 2, 0,
   2, 192, 1, 176, 0, 138, 0, 177, 0, 192, 1, 0, 2, 0, 2, 192, 1, 178, 0, 137, 0, 178, 0, 192, 1,
   0, 2, 0, 2, 194, 1, 177, 0, 138, 0, 177, 0, 192, 1, 0, 2, 0, 2, 192, 1, 178, 0, 136, 0, 178, 0,
   192, 1, 0, 2, 0, 2, 192, 1, 190, 0, 138, 0, 190, 0, 192, 1, 0, 2, 0, 3, 192, 0, 224, 0, 152, 0,
   136, 0, 248, 3, 72, 2, 72, 2, 72, 2, 0, 0, 240, 1, 8, 2, 8, 22, 8, 26, 16, 1, 0, 0, 248, 3, 73,
   2, 74, 2, 72, 2, 72, 2, 0, 0, 248, 3, 72, 2, 74, 2, 73, 2, 72, 2, 0, 0, 250, 3, 73, 2, 74, 2,
   72, 2, 72, 2, 0, 0, 248, 3, 74, 2, 72, 2, 74, 2, 72, 2, 0, 0, 249, 3, 2, 2, 0, 249, 3, 1, 0,
   250, 3, 2, 0, 248, 3, 2, 64, 0, 248, 3, 72, 2, 72, 2, 16, 1, 224, 0, 0, 250, 3, 49, 0, 66, 0,
   129, 1, 248, 3, 0, 0, 240, 1, 8, 2, 9, 2, 10, 2, 8, 2, 240, 1, 0, 0, 240, 1, 8, 2, 10, 2, 9, 2,
   8, 2, 240, 1, 0, 0, 240, 1, 8, 2, 10, 2, 9, 2, 10, 2, 240, 1, 0, 0, 240, 1, 10, 2, 9, 2, 10, 2,
   9, 2, 240, 1, 0, 0, 240, 1, 10, 2, 8, 2, 10, 2, 8, 2, 240, 1, 16, 1, 160, 0, 224, 0, 160, 0, 16,
   1, 0, 0, 240, 2, 8, 3, 200, 2, 40, 2, 24, 3, 232, 0, 0, 248, 1, 1, 2, 2, 2, 0, 2, 248, 1, 0, 0,
   248, 1, 2, 2, 1, 2, 0, 2, 248, 1, 0, 0, 248, 1, 2, 2, 1, 2, 2, 2, 248, 1, 0, 0, 248, 1, 2, 2, 0,
   2, 2, 2, 248, 1, 8, 0, 16, 0, 32, 0, 194, 3, 33, 0, 16, 0, 8, 0, 0, 248, 3, 16, 1, 16, 1, 16, 1,
   224, 0, 0, 240, 3, 8, 1, 72, 2, 176, 2, 128, 1, 0, 0, 0, 3, 164, 2, 168, 2, 224, 3, 0, 0, 0, 3,
   168, 2, 164, 2, 224, 3, 0, 0, 0, 3, 168, 2, 164, 2, 232, 3, 0, 0, 8, 3, 164, 2, 168, 2, 228, 3,
   0, 0, 0, 3, 168, 2, 160, 2, 232, 3, 0, 0, 0, 3, 174, 2, 170, 2, 238, 3, 0, 0, 64, 3, 160, 2,
   160, 2, 192, 1, 160, 2, 160, 2, 192, 2, 0, 0, 192, 1, 32, 22, 32, 26, 64, 1, 0, 0, 192, 1, 164,
   2, 168, 2, 192, 2, 0, 0, 192, 1, 168, 2, 164, 2, 192, 2, 0, 0, 192, 1, 168, 2, 164, 2, 200, 2,
   0, 0, 192, 1, 168, 2, 160, 2, 200, 2, 0, 0, 228, 3, 8, 8, 0, 228, 3, 8, 0, 228, 3, 8, 8, 0, 224,
   3, 8, 0, 0, 192, 1, 40, 2, 56, 2, 224, 1, 0, 0, 232, 3, 36, 0, 40, 0, 196, 3, 0, 0, 192, 1, 36,
   2, 40, 2, 192, 1, 0, 0, 192, 1, 40, 2, 36, 2, 192, 1, 0, 0, 192, 1, 40, 2, 36, 2, 200, 1, 0, 0,
   200, 1, 36, 2, 40, 2, 196, 1, 0, 0, 192, 1, 40, 2, 32, 2, 200, 1, 64, 0, 64, 0, 80, 1, 64, 0,
   64, 0, 0, 192, 2, 160, 3, 96, 2, 160, 1, 0, 0, 224, 1, 4, 2, 8, 2, 224, 3, 0, 0, 224, 1, 8, 2,
   4, 2, 224, 3, 0, 0, 232, 1, 4, 2, 8, 2, 224, 3, 0, 0, 224, 1, 8, 2, 0, 2, 232, 3, 32, 0, 192, 9,
   8, 6, 196, 1, 32, 0, 0, 248, 15, 32, 2, 32, 2, 192, 1, 32, 0, 200, 9, 0, 6, 200, 1, 32]

/-- A walk along `n` entries of a table, of which `table` is what is left. -/
def entriesOk (height position length : ℕ) : ℕ → List (BitVec 8) → Bool
  | 0, _ => true
  | n + 1, msb :: lsb :: size :: width :: table =>
      (decide (msb.toNat = 255 ∧ lsb.toNat = 255) ||
        decide (0 < size.toNat ∧ size.toNat ≤ width.toNat * ((height + 7) / 8) ∧
          position + (msb.toNat * 256 + lsb.toNat) + size.toNat ≤ length)) &&
      entriesOk height position length n table
  | _, _ => false

theorem byteOf_drop {fontData : List (BitVec 8)} {i : ℕ} {b : BitVec 8} {rest : List (BitVec 8)}
    (h : fontData.drop i = b :: rest) : byteOf fontData i = b.toNat ∧ i < fontData.length ∧
      fontData.drop (i + 1) = rest := by
  have hbyte : fontData[i]? = some b := by
    rw [← List.head?_drop, h]
    rfl
  refine ⟨by rw [byteOf, List.getD_eq_getElem?_getD, hbyte]; rfl,
    (List.getElem?_eq_some_iff.mp hbyte).1, ?_⟩
  rw [← List.drop_drop, h]
  rfl

/-- **The walk checks every entry.** -/
theorem entryOk_of_entriesOk {fontData : List (BitVec 8)} {n k : ℕ}
    (h : entriesOk (byteOf fontData 1) (4 + byteOf fontData 3 * 4) fontData.length n
      (fontData.drop (4 + k * 4)) = true) {j : ℕ} (hj : j < n) : EntryOk fontData (k + j) := by
  induction n generalizing k j with
  | zero => exact absurd hj (Nat.not_lt_zero _)
  | succ n ih =>
      obtain ⟨table, htable⟩ : ∃ table, fontData.drop (4 + k * 4) = table := ⟨_, rfl⟩
      rw [htable] at h
      match table, h with
      | msb :: lsb :: size :: width :: table, h =>
          obtain ⟨hmsb, -, h₁⟩ := byteOf_drop htable
          obtain ⟨hlsb, -, h₂⟩ := byteOf_drop h₁
          obtain ⟨hsize, -, h₃⟩ := byteOf_drop h₂
          obtain ⟨hwidth, hlast, h₄⟩ := byteOf_drop h₃
          rw [entriesOk, Bool.and_eq_true, Bool.or_eq_true, decide_eq_true_eq,
            decide_eq_true_eq] at h
          cases j with
          | zero =>
              rw [Nat.add_zero]
              refine ⟨hlast, fun hdraw => ?_⟩
              rw [hmsb, hlsb] at hdraw
              rw [hmsb, hlsb, hsize, hwidth]
              exact h.1.resolve_left hdraw
          | succ j =>
              have hrest : 4 + (k + 1) * 4 = 4 + k * 4 + 1 + 1 + 1 + 1 := by omega
              have hnext : k + (j + 1) = k + 1 + j := by omega
              rw [hnext]
              exact ih (by rw [hrest, h₄]; exact h.2) (Nat.lt_of_succ_lt_succ hj)

def arialData : List (BitVec 8) := arialMTPlain10Bytes.map (BitVec.ofNat 8)

theorem length_arialData : arialData.length = 2731 := by decide +kernel

theorem entries_arialData :
    entriesOk (byteOf arialData 1) (4 + byteOf arialData 3 * 4) arialData.length 224
      (arialData.drop (4 + 0 * 4)) = true := by
  rw [length_arialData]
  decide +kernel

/-- `ArialMT_Plain_10`. -/
def arialMTPlain10 : Font where
  data := arialData
  length_le := by
    rw [length_arialData]
    decide
  height_pos := by decide
  entries := by
    intro k hk
    have hfirst : byteOf arialData 2 = 32 := by decide
    rw [hfirst] at hk
    have hentry := entryOk_of_entriesOk entries_arialData hk
    rwa [Nat.zero_add] at hentry

end CourseDesign.Terminal
